import Xv6.Lib.Transition
import Xv6.Vm.Strings

/-!
# A page table is a finite map

A table that `uvmcreate` has made is used through `mappages`, `uvmunmap` and `vmfault`,
while the rest of the kernel takes and frees pages of its own.  It stays a tree of table
pages that no other use shares, and it stands for the map from virtual pages to their
physical pages and permissions.
-/

namespace Xv6
namespace Vm

open Lib

/-- The map that a page table stands for. -/
def bindings (m : Kmem) (r : Page) (v : Nat) : Option (Page × Perm) :=
  if (leafAt m r v).v = true then
    some ((leafAt m r v).ppn, (leafAt m r v).perm)
  else
    none

/-!
## Entries as words

`Pte` keeps the fields of an entry apart.  In memory they are one word.
-/

def PA2PTE (pa : Nat) : Nat :=
  pa / 2 ^ 12 * 2 ^ 10

def PTE2PA (pte : Nat) : Nat :=
  pte / 2 ^ 10 * 2 ^ 12

def Perm.bits (perm : Perm) : Nat :=
  perm.r.toNat * 2 + perm.w.toNat * 4 + perm.x.toNat * 8 + perm.u.toNat * 16

theorem pte_word (perm : Perm) (pg : Page) :
    Pte.ofBits (PA2PTE (pg * PGSIZE) + perm.bits + 1) = perm.pte pg ∧
      PTE2PA (PA2PTE (pg * PGSIZE) + perm.bits + 1) = pg * PGSIZE := by
  have hword : PA2PTE (pg * PGSIZE) = 2 ^ 10 * pg := by
    unfold PA2PTE PGSIZE
    omega
  have hbits : perm.bits + 1 < 2 ^ 10 := by
    rcases perm with ⟨r, w, x, u⟩
    revert r w x u
    decide
  have hppn : (2 ^ 10 * pg + (perm.bits + 1)) / 2 ^ 10 = pg := by
    rw [Nat.mul_add_div (by decide), Nat.div_eq_of_lt hbits, Nat.add_zero]
  have hflag : forall i, i < 10 ->
      (2 ^ 10 * pg + (perm.bits + 1)).testBit i = (perm.bits + 1).testBit i := by
    intro i hi
    rw [Nat.testBit_two_pow_mul_add pg hbits, if_pos hi]
  rw [hword, Nat.add_assoc]
  constructor
  · unfold Pte.ofBits Perm.pte
    rw [hppn, hflag 0 (by decide), hflag 1 (by decide), hflag 2 (by decide),
      hflag 3 (by decide), hflag 4 (by decide)]
    clear hppn hflag hbits hword
    rcases perm with ⟨r, w, x, u⟩
    cases r <;> cases w <;> cases x <;> cases u <;> rfl
  · unfold PTE2PA
    rw [hppn]
    rfl

/-!
## `mappages` of a range
-/

structure RangeMapped (m m' : Kmem) (r : Page) (lo k : Nat) (pa : Page) (perm : Perm) : Prop where
  conserve : Conserve m m' (nodes m r) (nodes m' r)
  inner : Inner m' r
  free : forall i, i < k -> (leafAt m r (lo + i)).v = false
  leaf_eq : forall w, w < VPNS -> leafAt m' r w =
    if lo <= w ∧ w < lo + k then perm.pte (pa + (w - lo)) else leafAt m r w

section

variable {m m' : Kmem} {r : Page}

theorem RangeMapped.nil (hinner : Inner m r) (lo : Nat) (pa : Page) (perm : Perm) :
    RangeMapped m m r lo 0 pa perm := by
  refine ⟨Conserve.refl m _, hinner, fun i hi => absurd hi (Nat.not_lt_zero i), ?_⟩
  intro w _
  rw [if_neg (by omega)]

variable {pa : Page} {perm : Perm} {va : Nat}

theorem RangeMapped.cons {m1 : Kmem} {lo k : Nat}
    (h' : RangeMapped m1 m' r (lo + 1) k (pa + 1) perm)
    (hlo : lo + 1 + k <= VPNS) (hfree : (leafAt m r lo).v = false)
    (h : Mapped m m1 r lo (perm.pte pa) true) :
    RangeMapped m m' r lo (k + 1) pa perm := by
  refine ⟨h.conserve.trans h'.conserve, h'.inner, ?_, ?_⟩
  · intro i hi
    cases i with
    | zero => exact hfree
    | succ i =>
      have hrest := h'.free i (by omega)
      rw [h.leaf_eq _ (by omega), if_neg (by omega)] at hrest
      rw [Nat.add_comm i, ← Nat.add_assoc]
      exact hrest
  · intro w hw
    rw [h'.leaf_eq w hw, h.leaf_eq w hw]
    rcases Nat.lt_trichotomy w lo with hlt | rfl | hgt
    · rw [if_neg (by omega), if_neg (by omega), if_neg (by omega)]
    · rw [if_neg (by omega), if_pos ⟨rfl, rfl⟩, if_pos (by omega), Nat.sub_self, Nat.add_zero]
    · by_cases hin : w < lo + (k + 1)
      · have hnext : lo + 1 <= w ∧ w < lo + 1 + k := by
          omega
        have hoff : 1 + (w - (lo + 1)) = w - lo := by
          omega
        rw [if_pos hnext, if_pos ⟨by omega, hin⟩, Nat.add_assoc, hoff]
      · rw [if_neg (by omega), if_neg (by omega), if_neg (by omega)]

theorem mappagesLoop_succ (n : Nat) (m : Kmem) (r : Page) (a : Nat) (pa : Page) (perm : Perm) :
    mappagesLoop (n + 1) m r a pa perm = (do
      let (m1, done) ← mappagesLoop 1 m r a pa perm
      if done then mappagesLoop n m1 r (a + PGSIZE) (pa + 1) perm else return (m1, false)) := by
  simp only [mappagesLoop]
  cases walk m r a true with
  | error e => rfl
  | ok res =>
    rcases res with ⟨m1, _ | ⟨p, i⟩⟩
    · rfl
    · simp only [bind, Except.bind]
      split
      · rfl
      · rfl

theorem mappagesLoop_remap {a : Nat} (n : Nat) (pa : Page) (perm : Perm) (hva : a < MAXVA)
    (hinner : Inner m r) (hle : forall q, nodes m r q + m.free.count q <= 1)
    (hvalid : (leafAt m r (a / PGSIZE)).v = true) :
    mappagesLoop (n + 1) m r a pa perm = .error .mappagesRemap ∨
      exists m', mappagesLoop (n + 1) m r a pa perm = .ok (m', false) ∧
        RangeMapped m m' r (a / PGSIZE) 0 pa perm := by
  unfold mappagesLoop walk
  rw [if_neg (Nat.not_le.mpr hva)]
  rcases hres : walkLoop true 2 m r a with ⟨m1, loc⟩
  rcases walkLoop_true hinner hle hres with ⟨hext, hloc, _⟩
  cases loc with
  | none =>
    refine .inr ⟨m1, rfl, hext.conserve, hext.inner,
      fun i hi => absurd hi (Nat.not_lt_zero i), ?_⟩
    intro w _
    rw [if_neg (by omega)]
    exact hext.leaf_eq w
  | some x =>
    rcases x with ⟨p, i⟩
    have hentry : (m1.entry p i).v = true := by
      rw [← leafAt_of_locate (hloc _ rfl)]
      exact (congrArg Pte.v (hext.leaf_eq (a / PGSIZE))).trans hvalid
    refine .inl ?_
    simp only [bind, Except.bind, hentry]
    rfl

theorem mappagesLoop_range {n : Nat} {m : Kmem} {a : Nat} (pa : Page) (perm : Perm)
    (halign : a % PGSIZE = 0) (hbound : a / PGSIZE + n <= MAXVA / PGSIZE) (hinner : Inner m r)
    (hle : forall q, nodes m r q + m.free.count q <= 1) :
    (mappagesLoop n m r a pa perm = .error .mappagesRemap ∧
      exists i, i < n ∧ (leafAt m r (a / PGSIZE + i)).v = true) ∨
    exists m' k, k <= n ∧ mappagesLoop n m r a pa perm = .ok (m', decide (k = n)) ∧
      RangeMapped m m' r (a / PGSIZE) k pa perm := by
  induction n generalizing m a pa with
  | zero => exact .inr ⟨m, 0, Nat.le_refl 0, rfl, RangeMapped.nil hinner _ pa perm⟩
  | succ n ih =>
    have hva : a < MAXVA := by
      unfold MAXVA PGSIZE at *
      omega
    have hmax : MAXVA / PGSIZE <= VPNS := by
      decide
    rcases next_page halign with ⟨halign', hdiv⟩
    cases hvalid : (leafAt m r (a / PGSIZE)).v with
    | true =>
      rcases mappagesLoop_remap n pa perm hva hinner hle hvalid with hrun | ⟨m', hrun, hmap⟩
      · exact .inl ⟨hrun, 0, Nat.succ_pos n, hvalid⟩
      · exact .inr ⟨m', 0, Nat.zero_le _, by rw [hrun, decide_eq_false (Nat.succ_ne_zero n).symm],
          hmap⟩
    | false =>
      rcases mappages_page pa perm hva halign hinner hle hvalid with ⟨m1, done, hrun, hmap⟩
      have hfirst : mappagesLoop 1 m r a pa perm = .ok (m1, done) := by
        unfold mappages at hrun
        rw [if_neg (by simpa using halign), if_neg (by decide), if_neg (by decide)] at hrun
        exact hrun
      rw [mappagesLoop_succ, hfirst]
      cases done with
      | false =>
        refine .inr ⟨m1, 0, Nat.zero_le _, ?_, hmap.conserve, hmap.inner,
          fun i hi => absurd hi (Nat.not_lt_zero i), ?_⟩
        · rw [decide_eq_false (Nat.succ_ne_zero n).symm]
          rfl
        · intro w hw
          rw [hmap.leaf_eq w hw, if_neg (by simp), if_neg (by omega)]
      | true =>
        have hle1 : forall q, nodes m1 r q + m1.free.count q <= 1 := by
          intro q
          rw [hmap.conserve.total q]
          exact hle q
        rcases ih (pa + 1) halign' (by omega) hmap.inner hle1 with
          ⟨hrun', i, hi, hvalid'⟩ | ⟨m', k, hk, hrun', hmap'⟩
        · refine .inl ⟨hrun', i + 1, Nat.succ_lt_succ hi, ?_⟩
          rw [hdiv, hmap.leaf_eq _ (by omega), if_neg (by omega)] at hvalid'
          rw [Nat.add_comm i, ← Nat.add_assoc]
          exact hvalid'
        · rw [hdiv] at hmap'
          refine .inr ⟨m', k + 1, Nat.succ_le_succ hk, ?_, hmap'.cons (by omega) hvalid hmap⟩
          simp only [bind, Except.bind, if_true, hrun', Nat.add_right_cancel_iff]

/-!
## The tree
-/

/-- Every table page is reached once, it is not free, and `kfree` takes it. -/
structure Tree (m : Kmem) (r : Page) : Prop where
  inner : Inner m r
  good : Good m (nodes m r)

theorem Tree.le (h : Tree m r) (q : Page) : nodes m r q + m.free.count q <= 1 :=
  h.good.le_one q

theorem uvmcreate_tree (hgood : Good m fun _ => 0) (hrun : uvmcreate m = some (r, m')) :
    Tree m' r := by
  rcases uvmcreate_spec hrun with ⟨hcons, hinner, _⟩
  exact ⟨hinner, (hgood.conserve hcons).mono (nodes_le_use m' r)⟩

theorem mappages_tree {size : Nat} {done : Bool} (h : Tree m r)
    (hva : va + size <= MAXVA) (hrun : mappages m r va size pa perm = .ok (m', done)) :
    exists k, k <= size / PGSIZE ∧ done = decide (k = size / PGSIZE) ∧ Tree m' r ∧
      RangeMapped m m' r (va / PGSIZE) k pa perm := by
  unfold mappages at hrun
  split at hrun
  · cases hrun
  split at hrun
  · cases hrun
  split at hrun
  · cases hrun
  next halign hsize _ =>
    have hbound : va / PGSIZE + size / PGSIZE <= MAXVA / PGSIZE := by
      unfold MAXVA PGSIZE at *
      omega
    rcases mappagesLoop_range pa perm (not_not.mp halign) hbound h.inner h.le with
      ⟨herr, _⟩ | ⟨m1, k, hk, hok, hmap⟩
    · rw [herr] at hrun
      cases hrun
    · rw [hok] at hrun
      cases hrun
      exact ⟨k, hk, rfl, ⟨hmap.inner, h.good.conserve hmap.conserve⟩, hmap⟩

/-- What `uvmunmap` may free: allocated pages, each of them mapped once in the range, that are
not tables. -/
def Freeable (m : Kmem) (r : Page) (va npages : Nat) (doFree : Bool) : Prop :=
  Good m fun q => nodes m r q + freed doFree (leafAt m r) (va / PGSIZE) npages q

theorem uvmunmap_tree {npages : Nat} {doFree : Bool} (h : Tree m r) (halign : va % PGSIZE = 0)
    (hva : va + npages * PGSIZE <= MAXVA) (hfree : Freeable m r va npages doFree) :
    exists m', uvmunmap m r va npages doFree = .ok m' ∧ Tree m' r ∧
      Unmapped m m' r (va / PGSIZE) npages (freed doFree (leafAt m r) (va / PGSIZE) npages) := by
  have hbound : va / PGSIZE + npages <= MAXVA / PGSIZE := by
    unfold MAXVA PGSIZE at *
    omega
  rcases uvmunmap_spec doFree halign hbound h.inner hfree with ⟨m', hrun, hun⟩
  exact ⟨m', hrun, ⟨hun.inner, Good.conserve hfree hun.conserve⟩, hun⟩

theorem map_taken {m1 : Kmem} {mem : Page} (perm : Perm) (h : Tree m r)
    (hva : va < MAXVA) (halign : va % PGSIZE = 0) (hfree : (leafAt m r (va / PGSIZE)).v = false)
    (htake : Conserve m m1 (fun _ => 0) (one mem)) :
    exists m2 done, mappages m1 r va PGSIZE mem perm = .ok (m2, done) ∧
      (done = true -> Inner m2 r ∧
        Conserve m m2 (nodes m r) (fun q => nodes m2 r q + one mem q) ∧
        forall w, w < VPNS ->
          leafAt m2 r w = if w = va / PGSIZE then perm.pte mem else leafAt m r w) ∧
      (done = false -> exists m3, kfree m2 mem = .ok m3 ∧ Inner m3 r ∧
        Conserve m m3 (nodes m r) (nodes m3 r) ∧
        forall w, w < VPNS -> leafAt m3 r w = leafAt m r w) := by
  have hsame := htake.same_of_take h.good (fun _ => Nat.le_refl _)
  have hheld : Conserve m m1 (nodes m r) (fun q => nodes m1 r q + one mem q) :=
    (htake.add (nodes m r)).congr (fun q => (Nat.zero_add _).symm) (fun q => by
      rw [hsame.nodes_eq q]
      exact Nat.add_comm _ _)
  have hgood1 := h.good.conserve hheld
  have hle1 : forall q, nodes m1 r q + m1.free.count q <= 1 := by
    intro q
    have hone := hgood1.le_one q
    omega
  rcases mappages_page mem perm hva halign (hsame.inner h.inner) hle1 (by
    rw [hsame.leaf_eq]
    exact hfree) with ⟨m2, done, hrun, hmap⟩
  have hcons2 := hheld.trans (hmap.conserve.add (one mem))
  refine ⟨m2, done, hrun, ?_, ?_⟩
  · rintro rfl
    refine ⟨hmap.inner, hcons2, ?_⟩
    intro w hw
    rw [hmap.leaf_eq w hw, hsame.leaf_eq w]
    simp only [true_and]
  · rintro rfl
    rcases kfree_held (h.good.conserve hcons2) with ⟨m3, hrun3, hcons3, hsame3⟩
    have hr3 := hsame3 r fun _ => Nat.le_refl _
    refine ⟨m3, hrun3, hr3.inner hmap.inner, ?_, ?_⟩
    · exact hcons2.trans (hcons3.congr (fun _ => rfl) hr3.nodes_eq)
    · intro w hw
      rw [hr3.leaf_eq w, hmap.leaf_eq w hw, if_neg (fun hdone => by cases hdone.left)]
      exact hsame.leaf_eq w

theorem vmfault_tree (h : Tree m r) (sz : Nat) (hva : va < MAXVA) :
    exists m' res, vmfault m { pagetable := r, sz := sz } r va = .ok (m', res) ∧ Tree m' r ∧
      forall w, w < VPNS -> leafAt m' r w =
        match res with
        | none => leafAt m r w
        | some pa => if w = va / PGSIZE then
            Perm.pte { r := true, w := true, x := false, u := true } pa else leafAt m r w := by
  have hstay : exists m' res, (.ok (m, none) : Except Panic (Kmem × Option Page)) = .ok (m', res) ∧
      Tree m' r ∧ forall w, w < VPNS -> leafAt m' r w =
        match res with
        | none => leafAt m r w
        | some pa => if w = va / PGSIZE then
            Perm.pte { r := true, w := true, x := false, u := true } pa else leafAt m r w :=
    ⟨m, none, rfl, h, fun _ _ => rfl⟩
  have hdown : pgrounddown va < MAXVA := lt_MAXVA_iff.mp hva
  unfold vmfault
  by_cases hge : va >= sz
  · rw [if_pos hge]
    exact hstay
  rw [if_neg hge]
  simp only [ismapped_eq hdown, (pgrounddown_eq va).2, bind, Except.bind]
  cases hvalid : (leafAt m r (va / PGSIZE)).v with
  | true => exact hstay
  | false =>
    cases halloc : kalloc m with
    | none => exact hstay
    | some taken =>
      rcases taken with ⟨mem, m1⟩
      have htake : Conserve m (m1.memset mem 0) (fun _ => 0) (one mem) :=
        (kalloc_zeroed halloc 0 (fun _ => 0)).congr (fun _ => rfl)
          (fun q => (Nat.zero_add _).symm)
      have hpage := page_addr (va / PGSIZE)
      rcases map_taken { r := true, w := true, x := false, u := true } h hdown hpage.1 (by
        rw [(pgrounddown_eq va).2]
        exact hvalid) htake with ⟨m2, done, hrun, hyes, hno⟩
      simp only [hrun]
      cases done with
      | true =>
        rcases hyes rfl with ⟨hinner, hcons, hleaf⟩
        rw [(pgrounddown_eq va).2] at hleaf
        exact ⟨m2, some mem, rfl, ⟨hinner, (h.good.conserve hcons).mono fun q =>
          Nat.le_add_right _ _⟩, hleaf⟩
      | false =>
        rcases hno rfl with ⟨m3, hfree, hinner, hcons, hleaf⟩
        refine ⟨m3, none, ?_, ⟨hinner, h.good.conserve hcons⟩, hleaf⟩
        simp only [hfree]
        rfl

/-!
## Runs
-/

inductive Call where
  | mappages (va size : Nat) (pa : Page) (perm : Perm)
  | uvmunmap (va npages : Nat) (doFree : Bool)
  | vmfault (sz va : Nat)
  | other (m : Kmem)

def Call.run (r : Page) (m : Kmem) : Call -> Except Panic Kmem
  | .mappages va size pa perm => (Vm.mappages m r va size pa perm).map Prod.fst
  | .uvmunmap va npages doFree => Vm.uvmunmap m r va npages doFree
  | .vmfault sz va => (Vm.vmfault m { pagetable := r, sz := sz } r va).map Prod.fst
  | .other m' => .ok m'

/-- Addresses are below `MAXVA`; `uvmunmap` frees allocated pages only; the rest of the kernel
neither writes to the pages of the table nor frees them. -/
def Call.Proper (r : Page) (m : Kmem) : Call -> Prop
  | .mappages va size _ _ => va + size <= MAXVA
  | .uvmunmap va npages doFree => va + npages * PGSIZE <= MAXVA ∧ Freeable m r va npages doFree
  | .vmfault _ va => va < MAXVA
  | .other m' => sv39.Agree m.entry m'.entry 2 r ∧ Good m' (nodes m r)

def tables (r : Page) : System Kmem Call where
  init m' := exists m, Good m (fun _ => 0) ∧ uvmcreate m = some (r, m')
  step m c m' := c.run r m = .ok m'

theorem Tree.call {c : Call} (h : Tree m r) (hproper : c.Proper r m) (hrun : c.run r m = .ok m') :
    Tree m' r := by
  cases c with
  | mappages va size pa perm =>
    rcases map_eq_ok.mp hrun with ⟨⟨m1, done⟩, hmap, rfl⟩
    rcases mappages_tree h hproper hmap with ⟨_, _, _, htree, _⟩
    exact htree
  | uvmunmap va npages doFree =>
    have halign : va % PGSIZE = 0 := by
      by_contra hno
      change Vm.uvmunmap m r va npages doFree = .ok m' at hrun
      unfold Vm.uvmunmap at hrun
      rw [if_pos hno] at hrun
      cases hrun
    rcases uvmunmap_tree h halign hproper.1 hproper.2 with ⟨m1, hrun1, htree, _⟩
    have heq := hrun1.symm.trans hrun
    cases heq
    exact htree
  | vmfault sz va =>
    rcases map_eq_ok.mp hrun with ⟨⟨m2, res2⟩, hfault, rfl⟩
    rcases vmfault_tree h sz hproper with ⟨m1, res, hrun1, htree, _⟩
    have heq := hrun1.symm.trans hfault
    cases heq
    exact htree
  | other m1 =>
    cases hrun
    have hsame := same_of_agree hproper.1
    exact ⟨hsame.inner h.inner, hproper.2.mono fun q => Nat.le_of_eq (hsame.nodes_eq q)⟩

theorem tables_tree (hreach : (tables r).ReachableVia (fun m c => c.Proper r m) m) : Tree m r := by
  refine hreach.invariant (I := fun m => Tree m r) ?_ ?_
  · rintro m1 ⟨m0, hgood, hrun⟩
    exact uvmcreate_tree hgood hrun
  · intro m1 c m2 h hproper hrun
    exact h.call hproper hrun

/-!
## The map
-/

theorem bindings_congr (hleaf : leafAt m' r = leafAt m r) : bindings m' r = bindings m r := by
  funext v
  unfold bindings
  rw [hleaf]

structure IsSlot (m : Kmem) (r : Page) (v : Nat) (p : Page) (i : Nat) : Prop where
  table : nodes m r p = 1
  index : i < 512
  entry : leafAt m r v = m.entry p i
  frame : forall e w, w < VPNS -> leafAt (m.set p i e) r w = if w = v then e else leafAt m r w

theorem Tree.mappages_bindings (h : Tree m r) {size : Nat}
    (hva : va + size <= MAXVA) (hrun : mappages m r va size pa perm = .ok (m', true)) {v : Nat}
    (hv : v < VPNS) :
    (va / PGSIZE <= v ∧ v < va / PGSIZE + size / PGSIZE -> bindings m r v = none) ∧
      bindings m' r v = if va / PGSIZE <= v ∧ v < va / PGSIZE + size / PGSIZE then
        some (pa + (v - va / PGSIZE), perm) else bindings m r v := by
  rcases mappages_tree h hva hrun with ⟨k, _, hdone, _, hmap⟩
  have hk : k = size / PGSIZE := of_decide_eq_true hdone.symm
  subst hk
  constructor
  · intro hin
    have hfree := hmap.free (v - va / PGSIZE) (by omega)
    rw [Nat.add_sub_cancel' hin.1] at hfree
    unfold bindings
    rw [hfree]
    rfl
  · unfold bindings
    rw [hmap.leaf_eq v hv]
    by_cases hin : va / PGSIZE <= v ∧ v < va / PGSIZE + size / PGSIZE
    · rw [if_pos hin, if_pos hin]
      rfl
    · rw [if_neg hin, if_neg hin]

theorem Tree.uvmunmap_bindings (h : Tree m r) {npages : Nat} {doFree : Bool}
    (halign : va % PGSIZE = 0) (hva : va + npages * PGSIZE <= MAXVA)
    (hfree : Freeable m r va npages doFree) :
    exists m', uvmunmap m r va npages doFree = .ok m' ∧
      forall v, v < VPNS -> bindings m' r v =
        if va / PGSIZE <= v ∧ v < va / PGSIZE + npages then none else bindings m r v := by
  rcases uvmunmap_tree h halign hva hfree with ⟨m', hrun, _, hun⟩
  refine ⟨m', hrun, ?_⟩
  intro v hv
  unfold bindings
  by_cases hin : va / PGSIZE <= v ∧ v < va / PGSIZE + npages
  · rw [if_pos hin, hun.gone v hv hin.1 hin.2]
    rfl
  · rw [if_neg hin, hun.kept v hv (by omega)]

theorem Tree.slot (h : Tree m r) {v : Nat} {p : Page} {i : Nat} (hv : v < VPNS)
    (hloc : sv39.locate m.entry 2 r v = some (p, i)) : IsSlot m r v p i := by
  have hle : forall q, nodes m r q <= 1 := by
    intro q
    have hone := h.le q
    omega
  have huse := sv39.locate_uses hloc
  refine ⟨Nat.le_antisymm (hle p) huse.1, huse.2, leafAt_of_locate hloc, ?_⟩
  intro e w hw
  exact (set_leaf e hle hv hloc).2.1 w hw

theorem Tree.walk_slot (h : Tree m r) (hva : va < MAXVA) :
    exists loc, walk m r va false = .ok (m, loc) ∧
      match loc with
      | none => bindings m r (va / PGSIZE) = none
      | some (p, i) => IsSlot m r (va / PGSIZE) p i ∧ forall va', va' < MAXVA ->
          walk m r va' false = .ok (m, some (p, i)) -> va' / PGSIZE = va / PGSIZE := by
  refine ⟨_, walk_false hva, ?_⟩
  cases hloc : sv39.locate m.entry 2 r (va / PGSIZE) with
  | none =>
    unfold bindings
    rw [leafAt_of_locate_none hloc]
    rfl
  | some x =>
    rcases x with ⟨p, i⟩
    refine ⟨h.slot (vpn_lt hva) hloc, ?_⟩
    intro va' hva' hwalk
    rw [walk_false hva'] at hwalk
    have hloc' := congrArg Prod.snd (Except.ok.inj hwalk)
    have hle : forall q, nodes m r q <= 1 := by
      intro q
      have hone := h.le q
      omega
    have hmod : va' / PGSIZE % VPNS = va / PGSIZE % VPNS := sv39.locate_inj hle hloc' hloc
    rw [Nat.mod_eq_of_lt (vpn_lt hva'), Nat.mod_eq_of_lt (vpn_lt hva)] at hmod
    exact hmod

theorem Tree.walk_alloc (h : Tree m r) (hva : va < MAXVA) :
    exists m' loc, walk m r va true = .ok (m', loc) ∧
      bindings m' r = bindings m r ∧ forall q, nodes m r q <= nodes m' r q := by
  rcases hres : walkLoop true 2 m r va with ⟨m1, loc⟩
  rcases walkLoop_true h.inner h.le hres with ⟨hext, _, _⟩
  refine ⟨m1, loc, ?_, bindings_congr (funext hext.leaf_eq), ?_⟩
  · unfold walk
    rw [if_neg (Nat.not_le.mpr hva), hres]
  · intro q
    have htotal := hext.conserve.total q
    have hfree : m1.free <:+ m.free := by
      have hsuffix := walkLoop_free 2 m r va
      rw [hres] at hsuffix
      exact hsuffix
    have hcount := hfree.sublist.count_le q
    unfold nodes
    omega

theorem Tree.freewalk (h : Tree m r) (hnone : forall v, v < VPNS -> bindings m r v = none) :
    exists m', freewalk 3 m r = .ok m' ∧
      forall q, m'.free.count q = m.free.count q + nodes m r q := by
  have hbare : Bare m 2 r := by
    intro v hv
    have hno := hnone v hv
    unfold bindings at hno
    change (leafAt m r v).v = false
    cases hvalid : (leafAt m r v).v with
    | false => rfl
    | true =>
      rw [if_pos hvalid] at hno
      cases hno
  rcases freewalk_spec h.inner hbare h.good with ⟨m', hrun, hcons⟩
  refine ⟨m', hrun, ?_⟩
  intro q
  have htotal := hcons.total q
  unfold nodes
  omega

theorem finite_map (hreach : (tables r).ReachableVia (fun m c => c.Proper r m) m) :
    (forall va size pa perm m', va + size <= MAXVA ->
      mappages m r va size pa perm = .ok (m', true) ->
      forall v, v < VPNS ->
        (va / PGSIZE <= v ∧ v < va / PGSIZE + size / PGSIZE -> bindings m r v = none) ∧
        bindings m' r v = if va / PGSIZE <= v ∧ v < va / PGSIZE + size / PGSIZE then
          some (pa + (v - va / PGSIZE), perm) else bindings m r v) ∧
    (forall va npages doFree, va % PGSIZE = 0 -> va + npages * PGSIZE <= MAXVA ->
      Freeable m r va npages doFree -> exists m', uvmunmap m r va npages doFree = .ok m' ∧
      forall v, v < VPNS -> bindings m' r v =
        if va / PGSIZE <= v ∧ v < va / PGSIZE + npages then none else bindings m r v) ∧
    (forall va, va < MAXVA -> exists loc, walk m r va false = .ok (m, loc) ∧
      match loc with
      | none => bindings m r (va / PGSIZE) = none
      | some (p, i) => IsSlot m r (va / PGSIZE) p i ∧ forall va', va' < MAXVA ->
          walk m r va' false = .ok (m, some (p, i)) -> va' / PGSIZE = va / PGSIZE) ∧
    (forall va, va < MAXVA -> exists m' loc, walk m r va true = .ok (m', loc) ∧
      bindings m' r = bindings m r ∧ forall q, nodes m r q <= nodes m' r q) ∧
    (forall q, nodes m r q <= 1) ∧
    ((forall v, v < VPNS -> bindings m r v = none) -> exists m', freewalk 3 m r = .ok m' ∧
      forall q, m'.free.count q = m.free.count q + nodes m r q) := by
  have htree := tables_tree hreach
  refine ⟨?_, ?_, ?_, ?_, ?_, htree.freewalk⟩
  · intro va size pa perm m' hva hrun v hv
    exact htree.mappages_bindings hva hrun hv
  · intro va npages doFree halign hva hfree
    exact htree.uvmunmap_bindings halign hva hfree
  · intro va hva
    exact htree.walk_slot hva
  · intro va hva
    exact htree.walk_alloc hva
  · intro q
    have hone := htree.le q
    omega

end

theorem finite_map_one : exists r m, (tables r).ReachableVia (fun m c => c.Proper r m) m ∧
    bindings m r 5 = some (0x80021, { r := true, w := false, x := false, u := true }) ∧
    (forall q, nodes m r q <= 1) := by
  have hcheck : (uvmcreate eightPages).any (fun a =>
      passes (mappages a.2 a.1 (5 * PGSIZE) PGSIZE 0x80021
        { r := true, w := false, x := false, u := true }) fun b => decide (b.2 = true ∧
          bindings b.1 a.1 5 =
            some (0x80021, { r := true, w := false, x := false, u := true }))) = true := by
    decide +kernel
  obtain ⟨⟨r, m⟩, hcreate, hcheck⟩ := (Option.any_eq_true _ _).mp hcheck
  obtain ⟨⟨m', done⟩, hmap, hcheck⟩ := passes_eq_true.mp hcheck
  have hproper : Call.Proper r m (.mappages (5 * PGSIZE) PGSIZE 0x80021
      { r := true, w := false, x := false, u := true }) :=
    show 5 * PGSIZE + PGSIZE <= MAXVA by decide
  have hreach : (tables r).ReachableVia (fun m c => c.Proper r m) m' :=
    .step (.init ⟨eightPages, eightPages_good, hcreate⟩) hproper (map_eq_ok.mpr ⟨_, hmap, rfl⟩)
  exact ⟨r, m', hreach, (of_decide_eq_true hcheck).2, (finite_map hreach).2.2.2.2.1⟩

/-- Addresses are page-aligned and below `MAXVA`, and nothing else is asked for. -/
def Call.Below : Call -> Prop
  | .mappages va size _ _ => va % PGSIZE = 0 ∧ va + size <= MAXVA
  | .uvmunmap va npages _ => va % PGSIZE = 0 ∧ va + npages * PGSIZE <= MAXVA
  | .vmfault _ va => va % PGSIZE = 0 ∧ va < MAXVA
  | .other _ => False

instance (c : Call) : Decidable c.Below :=
  match c with
  | .mappages _ _ _ _ => inferInstanceAs (Decidable (_ ∧ _))
  | .uvmunmap _ _ _ => inferInstanceAs (Decidable (_ ∧ _))
  | .vmfault _ _ => inferInstanceAs (Decidable (_ ∧ _))
  | .other _ => inferInstanceAs (Decidable False)

def freedTwice : List Call :=
  [.mappages 0 PGSIZE 0x80021 { r := true, w := true, x := false, u := true },
    .mappages PGSIZE PGSIZE 0x80021 { r := true, w := true, x := false, u := true },
    .uvmunmap 0 2 true]

theorem table_shared : exists r m m', (tables r).ReachableVia (fun _ c => c.Below) m ∧
    mappages m r (2 ^ 30 + PGSIZE) PGSIZE 0x80022 { r := true, w := true, x := false, u := true } =
      .ok (m', true) ∧
    bindings m r (2 ^ 18) = none ∧ bindings m' r (2 ^ 18) ≠ none ∧ nodes m' r 0x80021 = 2 := by
  have hcheck : (uvmcreate eightPages).any (fun a =>
      (System.run (fun m c => (Call.run a.1 m c).toOption) (fun _ c => c.Below) a.2
        freedTwice).any fun m => passes (mappages m a.1 (2 ^ 30 + PGSIZE) PGSIZE 0x80022
          { r := true, w := true, x := false, u := true }) fun b => decide (b.2 = true ∧
            bindings m a.1 (2 ^ 18) = none ∧ bindings b.1 a.1 (2 ^ 18) ≠ none ∧
            nodes b.1 a.1 0x80021 = 2)) = true := by
    decide +kernel
  obtain ⟨⟨r, m0⟩, hcreate, hcheck⟩ := (Option.any_eq_true _ _).mp hcheck
  have hinit : (tables r).ReachableVia (fun _ c => c.Below) m0 :=
    .init ⟨eightPages, eightPages_good, hcreate⟩
  obtain ⟨m, hreach, hcheck⟩ := hinit.run_any (fun _ _ _ => toOption_eq_some.mp) hcheck
  obtain ⟨⟨m', _⟩, hmap, hcheck⟩ := passes_eq_true.mp hcheck
  obtain ⟨rfl, hfacts⟩ := of_decide_eq_true hcheck
  exact ⟨r, m, m', hreach, hmap, hfacts⟩

end Vm
end Xv6
