import Xv6.Vm.Contents
import Xv6.Vm.FiniteMap

/-!
# Growing and copying an address space

`uvmalloc` and `uvmcopy` with the bytes of the new pages, for sizes of any kind: a call
that returns has done its work, or it has undone it.
-/

namespace Xv6
namespace Vm

open Lib Function

variable {n lo sz newsz oldsz : Nat} {perm xperm : Perm} {mem : Page}

section

variable {x y z : Ram} {r : Page}

/-!
## Growing
-/

/-- The virtual pages from `lo` on, `n` of them, have been mapped to pages of zeroes. -/
structure Filled (x y : Ram) (r : Page) (lo n : Nat) (perm : Perm) : Prop where
  inner : Inner y.kmem r
  moves : Moves x y (nodes x.kmem r) (fun q => nodes y.kmem r q + mappedIn (leafAt y.kmem r) lo n q)
  unmapped : forall v, lo <= v -> v < lo + n -> (leafAt x.kmem r v).v = false
  fresh : forall v, lo <= v -> v < lo + n -> exists pa, pa ∈ x.kmem.free ∧
    leafAt y.kmem r v = perm.pte pa ∧ y.data pa = fun _ => 0
  kept : forall v, v < VPNS -> (v < lo ∨ lo + n <= v) -> leafAt y.kmem r v = leafAt x.kmem r v
  bound : n ≠ 0 -> lo + n <= MAXVA / PGSIZE
  suffix : y.kmem.free <:+ x.kmem.free

theorem Filled.refl (hinner : Inner x.kmem r) (lo : Nat) (perm : Perm) :
    Filled x x r lo 0 perm := by
  refine ⟨hinner, (Moves.refl x _).congr (fun _ => rfl) fun q => ?_, ?_, ?_, fun _ _ _ => rfl,
    fun h => absurd rfl h, List.suffix_rfl⟩
  · rw [mappedIn_eq_zero lo q fun v h1 h2 => absurd h2 (by omega), Nat.add_zero]
  · intro v h1 h2
    omega
  · intro v h1 h2
    omega

theorem Filled.cons (hgood : Good x.kmem (nodes x.kmem r))
    (hlo : lo < MAXVA / PGSIZE) (hmem : mem ∈ x.kmem.free)
    (hunmapped : (leafAt x.kmem r lo).v = false)
    (hmoves : Moves x y (nodes x.kmem r) (fun q => nodes y.kmem r q + one mem q))
    (hzero : y.data mem = fun _ => 0) (hleaf : forall w, w < VPNS -> leafAt y.kmem r w =
      if w = lo then perm.pte mem else leafAt x.kmem r w)
    (hsuffix : y.kmem.free <:+ x.kmem.free) (h : Filled y z r (lo + 1) n perm) :
    Filled x z r lo (n + 1) perm := by
  have hmax : MAXVA / PGSIZE <= VPNS := by
    decide
  have hend : lo + 1 + n <= MAXVA / PGSIZE := by
    by_cases hn : n = 0
    · omega
    · exact h.bound hn
  have hself : leafAt z.kmem r lo = perm.pte mem := by
    rw [h.kept lo (by omega) (by omega), hleaf lo (by omega), if_pos rfl]
  have hheld := hgood.conserve hmoves.conserve
  refine ⟨h.inner, ?_, ?_, ?_, ?_, fun _ => by omega, h.suffix.trans hsuffix⟩
  · refine (hmoves.trans (h.moves.add (one mem))).congr (fun _ => rfl) ?_
    intro q
    rw [mappedIn_succ, leafUse_of_valid (by rw [hself]; rfl), hself]
    have hppn : (perm.pte mem).ppn = mem := rfl
    rw [hppn]
    omega
  · intro v h1 h2
    by_cases hv : v = lo
    · rw [hv]
      exact hunmapped
    · have hno := h.unmapped v (by omega) (by omega)
      rw [hleaf v (by omega), if_neg hv] at hno
      exact hno
  · intro v h1 h2
    by_cases hv : v = lo
    · refine ⟨mem, hmem, by rw [hv]; exact hself, ?_⟩
      have hone := hheld.le_one mem
      rw [one_self] at hone
      rw [h.moves.data mem (by omega), hzero]
    · rcases h.fresh v (by omega) (by omega) with ⟨pa, hfree, hpa, hdata⟩
      exact ⟨pa, hsuffix.subset hfree, hpa, hdata⟩
  · intro v hv hout
    rw [h.kept v hv (by omega), hleaf v hv, if_neg (by omega)]

structure Taken (x y : Ram) (mem : Page) (c : Nat -> UInt8) : Prop where
  free : mem ∈ x.kmem.free
  moves : Moves x y (fun _ => 0) (one mem)
  data : y.data mem = c
  suffix : y.kmem.free <:+ x.kmem.free

theorem kalloc_head (halloc : x.kalloc = some (mem, y)) :
    mem ∈ x.kmem.free ∧ y.kmem.free <:+ x.kmem.free := by
  have hfree := kalloc_free halloc
  rw [hfree]
  exact ⟨List.mem_cons_self, List.suffix_cons mem _⟩

theorem taken_zeroed (halloc : x.kalloc = some (mem, y)) :
    Taken x (y.memset mem 0) mem fun _ => 0 := by
  rcases kalloc_head halloc with ⟨hmem, hsuffix⟩
  have hself : one mem mem ≠ 0 := by
    rw [one_self]
    decide
  refine ⟨hmem, Moves.taken halloc (Conserve.memset hself 0) ?_, update_self _ _ _, hsuffix⟩
  intro q hq
  exact update_of_ne hq _ _

theorem taken_copied (halloc : x.kalloc = some (mem, y)) (src : Page) :
    Taken x (y.copyPage mem src) mem (y.data src) := by
  rcases kalloc_head halloc with ⟨hmem, hsuffix⟩
  refine ⟨hmem, Moves.taken halloc (Conserve.refl _ _) ?_, update_self _ _ _, hsuffix⟩
  intro q hq
  exact update_of_ne hq _ _

theorem mappages_lt {m : Kmem} {va : Nat} {pa : Page} {res : Kmem × Bool}
    (hrun : mappages m r va PGSIZE pa perm = .ok res) : va < MAXVA ∧ va % PGSIZE = 0 := by
  unfold mappages at hrun
  split at hrun
  · cases hrun
  next halign =>
    rw [if_neg (by decide), if_neg (by decide)] at hrun
    refine ⟨?_, not_not.mp halign⟩
    by_contra hva
    have hone : PGSIZE / PGSIZE = 1 := by
      decide
    rw [hone] at hrun
    unfold mappagesLoop walk at hrun
    rw [if_pos (Nat.not_lt.mp hva)] at hrun
    cases hrun

theorem Taken.map {x1 : Ram} {c : Nat -> UInt8} {va : Nat} {done : Bool}
    (htaken : Taken x x1 mem c) (htree : Tree x.kmem r)
    (hrun : x1.mappages r va PGSIZE mem perm = .ok (y, done)) :
    y.kmem.free <:+ x.kmem.free ∧
      (done = true -> Inner y.kmem r ∧ (leafAt x.kmem r (va / PGSIZE)).v = false ∧
        Moves x y (nodes x.kmem r) (fun q => nodes y.kmem r q + one mem q) ∧ y.data mem = c ∧
        forall w, w < VPNS -> leafAt y.kmem r w =
          if w = va / PGSIZE then perm.pte mem else leafAt x.kmem r w) ∧
      (done = false -> exists z, y.kfree mem = .ok z ∧ Inner z.kmem r ∧
        Moves x z (nodes x.kmem r) (nodes z.kmem r) ∧
        forall w, w < VPNS -> leafAt z.kmem r w = leafAt x.kmem r w) := by
  have hkmem : mappages x1.kmem r va PGSIZE mem perm = .ok (y.kmem, done) := by
    rw [← mappages_kmem, hrun]
    rfl
  have hdata := mappages_data hrun
  rcases mappages_lt hkmem with ⟨hva, halign⟩
  have hsame := htaken.moves.conserve.same_of_take htree.good fun _ => Nat.le_refl _
  have hheld : Conserve x.kmem x1.kmem (nodes x.kmem r) (fun q => nodes x1.kmem r q + one mem q) :=
    (htaken.moves.conserve.add (nodes x.kmem r)).congr (fun q => (Nat.zero_add _).symm) fun q => by
      rw [hsame.nodes_eq q]
      exact Nat.add_comm _ _
  have hle1 : forall q, nodes x1.kmem r q + x1.kmem.free.count q <= 1 := by
    intro q
    have hone := (htree.good.conserve hheld).le_one q
    omega
  have hbytes : forall q, nodes x.kmem r q + x.kmem.free.count q = 0 -> y.data q = x.data q := by
    intro q hq
    rw [hdata]
    exact htaken.moves.data q (by omega)
  have hloop : mappagesLoop 1 x1.kmem r va mem perm = .ok (y.kmem, done) := by
    unfold mappages at hkmem
    rw [if_neg (by simpa using halign), if_neg (by decide), if_neg (by decide)] at hkmem
    exact hkmem
  have hbound : va / PGSIZE + 1 <= MAXVA / PGSIZE := by
    unfold MAXVA PGSIZE at *
    omega
  refine ⟨(mappages_free hkmem).trans htaken.suffix, ?_⟩
  rcases mappagesLoop_range mem perm halign hbound (hsame.inner htree.inner) hle1 with
    ⟨herr, _⟩ | ⟨m', k, hk, hok, hmap⟩
  · rw [herr] at hloop
    cases hloop
  rw [hok] at hloop
  have hm' : m' = y.kmem := congrArg Prod.fst (Except.ok.inj hloop)
  have hdone : decide (k = 1) = done := congrArg Prod.snd (Except.ok.inj hloop)
  subst hm' hdone
  have hcons := hheld.trans (hmap.conserve.add (one mem))
  constructor
  · intro hone
    have hk1 : k = 1 := of_decide_eq_true hone
    subst hk1
    refine ⟨hmap.inner, ?_, ⟨hcons, hbytes⟩, by rw [hdata]; exact htaken.data, ?_⟩
    · rw [← hsame.leaf_eq]
      exact hmap.free 0 Nat.one_pos
    · intro w hw
      rw [hmap.leaf_eq w hw, hsame.leaf_eq w]
      by_cases hwv : w = va / PGSIZE
      · rw [if_pos (by omega), if_pos hwv, hwv, Nat.sub_self, Nat.add_zero]
      · rw [if_neg (by omega), if_neg hwv]
  · intro hnot
    have hk0 : k = 0 := by
      have hne : k ≠ 1 := of_decide_eq_false hnot
      omega
    subst hk0
    rcases kfree_held (htree.good.conserve hcons) with ⟨m3, hrun3, hcons3, hsame3⟩
    have hr3 := hsame3 r fun _ => Nat.le_refl _
    have herase := kfree_kmem y mem
    rw [hrun3] at herase
    rcases map_eq_ok.mp herase with ⟨z, hfree, rfl⟩
    have hcons3 := hcons.trans (hcons3.congr (fun _ => rfl) hr3.nodes_eq)
    refine ⟨z, hfree, hr3.inner hmap.inner, ⟨hcons3, ?_⟩, ?_⟩
    · intro q hq
      have htotal := hcons3.total q
      rw [(freeing_kfree hfree).data q (List.count_eq_zero.mp (by omega)), hbytes q hq]
    · intro w hw
      rw [hr3.leaf_eq w, hmap.leaf_eq w hw, if_neg (by omega)]
      exact hsame.leaf_eq w

theorem Tree.moves {X : Page -> Nat} (h : Tree x.kmem r) (hinner : Inner y.kmem r)
    (hmoves : Moves x y (nodes x.kmem r) (fun q => nodes y.kmem r q + X q)) : Tree y.kmem r :=
  ⟨hinner, (h.good.conserve hmoves.conserve).mono fun _ => Nat.le_add_right _ _⟩

theorem uvmallocLoop_filled (htree : Tree x.kmem r)
    (hrun : Ram.uvmallocLoop oldsz xperm n x r (lo * PGSIZE) = .ok (y, true)) :
    Filled x y r lo n { xperm with r := true, u := true } := by
  induction n generalizing x lo with
  | zero =>
    cases hrun
    exact Filled.refl htree.inner lo _
  | succ n ih =>
    unfold Ram.uvmallocLoop at hrun
    cases halloc : x.kalloc with
    | none =>
      rw [halloc] at hrun
      rcases bind_eq_ok.mp hrun with ⟨_, _, hrun⟩
      cases hrun
    | some taken =>
      rcases taken with ⟨mem, x1⟩
      rw [halloc] at hrun
      rcases bind_eq_ok.mp hrun with ⟨⟨x2, mapped⟩, hmap, hrun⟩
      have htaken := taken_zeroed halloc
      rcases htaken.map htree hmap with ⟨hsuffix, hyes, _⟩
      cases mapped with
      | false =>
        rcases bind_eq_ok.mp hrun with ⟨_, _, hrun⟩
        rcases bind_eq_ok.mp hrun with ⟨_, _, hrun⟩
        cases hrun
      | true =>
        rcases hyes rfl with ⟨hinner, hunmapped, hmoves, hzero, hleaf⟩
        have hlo : lo < MAXVA / PGSIZE := by
          have hkmem : mappages (x1.memset mem 0).kmem r (lo * PGSIZE) PGSIZE mem
              { xperm with r := true, u := true } = .ok (x2.kmem, true) := by
            rw [← mappages_kmem, hmap]
            rfl
          have hva := (mappages_lt hkmem).1
          unfold MAXVA PGSIZE at *
          omega
        rw [(page_addr lo).2] at hunmapped hleaf
        simp only [if_true] at hrun
        rw [page_addr_succ] at hrun
        exact Filled.cons htree.good hlo htaken.free hunmapped hmoves hzero hleaf hsuffix
          (ih (htree.moves hinner hmoves) hrun)

theorem uvmallocLoop_failed (htree : Tree x.kmem r)
    (hrun : Ram.uvmallocLoop oldsz xperm n x r (lo * PGSIZE) = .ok (y, false)) :
    exists j x1 x2 sz, Ram.uvmallocLoop oldsz xperm j x r (lo * PGSIZE) = .ok (x1, true) ∧
      Inner x2.kmem r ∧ Moves x1 x2 (nodes x1.kmem r) (nodes x2.kmem r) ∧
      (forall w, w < VPNS -> leafAt x2.kmem r w = leafAt x1.kmem r w) ∧
      x2.uvmdealloc r ((lo + j) * PGSIZE) oldsz = .ok (y, sz) := by
  induction n generalizing x lo with
  | zero => cases hrun
  | succ n ih =>
    unfold Ram.uvmallocLoop at hrun
    cases halloc : x.kalloc with
    | none =>
      rw [halloc] at hrun
      rcases bind_eq_ok.mp hrun with ⟨⟨x2, sz⟩, hde, hrun⟩
      cases hrun
      exact ⟨0, x, x, sz, rfl, htree.inner, Moves.refl x _, fun _ _ => rfl, hde⟩
    | some taken =>
      rcases taken with ⟨mem, x1⟩
      rw [halloc] at hrun
      rcases bind_eq_ok.mp hrun with ⟨⟨x2, mapped⟩, hmap, hrun⟩
      rcases (taken_zeroed halloc).map htree hmap with ⟨_, hyes, hno⟩
      cases mapped with
      | false =>
        rcases hno rfl with ⟨x3, hfree, hinner, hmoves, hleaf⟩
        rcases bind_eq_ok.mp hrun with ⟨x4, hfree', hrun⟩
        rw [hfree] at hfree'
        cases hfree'
        rcases bind_eq_ok.mp hrun with ⟨⟨x5, sz⟩, hde, hrun⟩
        cases hrun
        exact ⟨0, x, x3, sz, rfl, hinner, hmoves, hleaf, hde⟩
      | true =>
        rcases hyes rfl with ⟨hinner, _, hmoves, _, _⟩
        simp only [if_true] at hrun
        rw [page_addr_succ] at hrun
        rcases ih (htree.moves hinner hmoves) hrun with
          ⟨j, x3, x4, sz, hfirst, hinner', hmoves', hleaf', hde⟩
        refine ⟨j + 1, x3, x4, sz, ?_, hinner', hmoves', hleaf', ?_⟩
        · unfold Ram.uvmallocLoop
          rw [halloc]
          dsimp only
          rw [hmap, ok_bind]
          simp only [if_true]
          rw [page_addr_succ]
          exact hfirst
        · rw [← Nat.add_assoc, Nat.add_right_comm]
          exact hde

structure Undone (x y : Ram) (r : Page) : Prop where
  inner : Inner y.kmem r
  moves : Moves x y (nodes x.kmem r) (nodes y.kmem r)
  bindings_eq : forall v, v < VPNS -> bindings y.kmem r v = bindings x.kmem r v

theorem uvmdealloc_range {j : Nat} (hinner : Inner x.kmem r)
    (hgood : Good x.kmem (fun q => nodes x.kmem r q + mappedIn (leafAt x.kmem r) lo j q))
    (hbound : j ≠ 0 -> lo + j <= MAXVA / PGSIZE)
    (hrun : x.uvmdealloc r ((lo + j) * PGSIZE) (lo * PGSIZE) = .ok (y, sz)) :
    Inner y.kmem r ∧
      Moves x y (fun q => nodes x.kmem r q + mappedIn (leafAt x.kmem r) lo j q) (nodes y.kmem r) ∧
      (forall v, v < VPNS -> lo <= v -> v < lo + j -> (leafAt y.kmem r v).v = false) ∧
      forall v, v < VPNS -> (v < lo ∨ lo + j <= v) -> leafAt y.kmem r v = leafAt x.kmem r v := by
  by_cases hj : j = 0
  · subst hj
    unfold Ram.uvmdealloc at hrun
    rw [Nat.add_zero, if_pos (Nat.le_refl _)] at hrun
    cases hrun
    refine ⟨hinner, (Moves.refl _ _).congr (fun q => ?_) fun _ => rfl, ?_, fun _ _ _ => rfl⟩
    · rw [mappedIn_eq_zero lo q fun v h1 h2 => absurd h2 (by omega), Nat.add_zero]
    · intro v _ h1 h2
      omega
  have hle := hbound hj
  have hround : forall k, k <= MAXVA / PGSIZE -> pgroundup (k * PGSIZE) = k * PGSIZE := by
    intro k hk
    unfold pgroundup MAXVA PGSIZE at *
    omega
  have hnpages : viaInt (((lo + j) * PGSIZE - lo * PGSIZE) / PGSIZE) = j := by
    have hdiv : ((lo + j) * PGSIZE - lo * PGSIZE) / PGSIZE = j := by
      rw [Nat.add_mul, Nat.add_sub_cancel_left, Nat.mul_div_cancel _ (by decide)]
    rw [hdiv]
    unfold viaInt MAXVA PGSIZE at *
    rw [Nat.mod_eq_of_lt (by omega), if_pos (by omega)]
  unfold Ram.uvmdealloc at hrun
  rw [if_neg (by unfold PGSIZE; omega), hround _ hle, hround lo (by omega),
    if_pos (by unfold PGSIZE; omega)] at hrun
  rcases bind_eq_ok.mp hrun with ⟨x1, hun, hrun⟩
  cases hrun
  rw [hnpages] at hun
  have hkmem : uvmunmap x.kmem r (lo * PGSIZE) j true = .ok y.kmem := by
    rw [← uvmunmap_kmem, hun]
    rfl
  rcases uvmunmap_spec true (page_addr lo).1 (by rw [(page_addr lo).2]; exact hle) hinner (by
    rw [(page_addr lo).2]
    exact hgood) with ⟨m', hrun', hspec⟩
  rw [hkmem] at hrun'
  cases hrun'
  rw [(page_addr lo).2] at hspec
  exact ⟨hspec.inner, (freeing_uvmunmap hun).moves hspec.conserve, hspec.gone, hspec.kept⟩

theorem uvmallocLoop_undone (htree : Tree x.kmem r)
    (hrun : Ram.uvmallocLoop (lo * PGSIZE) xperm n x r (lo * PGSIZE) = .ok (y, false)) :
    Undone x y r := by
  rcases uvmallocLoop_failed htree hrun with
    ⟨j, x1, x2, sz, hfirst, hinner, hmoves, hleaf, hde⟩
  have hfilled := uvmallocLoop_filled htree hfirst
  have hmax : MAXVA / PGSIZE <= VPNS := by
    decide
  have hmapped : forall q, mappedIn (leafAt x2.kmem r) lo j q =
    mappedIn (leafAt x1.kmem r) lo j q := by
    intro q
    refine mappedIn_congr lo q ?_
    intro v h1 h2
    have hbound := hfilled.bound (by omega)
    rw [hleaf v (by omega)]
  have hall : Moves x x2 (nodes x.kmem r)
      (fun q => nodes x2.kmem r q + mappedIn (leafAt x2.kmem r) lo j q) :=
    (hfilled.moves.trans (hmoves.add (mappedIn (leafAt x1.kmem r) lo j))).congr (fun _ => rfl)
      fun q => by rw [hmapped q]
  rcases uvmdealloc_range hinner (htree.good.conserve hall.conserve) hfilled.bound hde with
    ⟨hinner', hmoves', hgone, hkept⟩
  refine ⟨hinner', hall.trans hmoves', ?_⟩
  intro v hv
  unfold bindings
  by_cases hin : lo <= v ∧ v < lo + j
  · rw [hgone v hv hin.1 hin.2, hfilled.unmapped v hin.1 hin.2]
    rfl
  · rw [hkept v hv (by omega), hleaf v hv, hfilled.kept v hv (by omega)]

theorem uvmalloc_undone (htree : Tree x.kmem r)
    (hrun : x.uvmalloc r oldsz newsz xperm = .ok (y, 0)) : Undone x y r := by
  have hself : Undone x x r := ⟨htree.inner, Moves.refl x _, fun _ _ => rfl⟩
  unfold Ram.uvmalloc at hrun
  split at hrun
  · cases hrun
    exact hself
  next hle =>
    rcases bind_eq_ok.mp hrun with ⟨⟨x1, done⟩, hloop, hrun⟩
    have hround : pgroundup oldsz = pgroundup oldsz / PGSIZE * PGSIZE := by
      unfold pgroundup PGSIZE
      omega
    cases done with
    | false =>
      cases hrun
      rw [hround] at hloop
      exact uvmallocLoop_undone htree hloop
    | true =>
      have hzero : newsz = 0 := congrArg Prod.snd (Except.ok.inj hrun)
      have hold : oldsz = 0 := by
        omega
      have heq : x1 = y := congrArg Prod.fst (Except.ok.inj hrun)
      subst hzero hold heq
      cases hloop
      exact hself

theorem uvmalloc_filled (htree : Tree x.kmem r)
    (hle : oldsz <= newsz) (hpos : sz ≠ 0) (hrun : x.uvmalloc r oldsz newsz xperm = .ok (y, sz)) :
    sz = newsz ∧ Filled x y r (pages oldsz) (pagesBetween (pgroundup oldsz) newsz)
      { xperm with r := true, u := true } := by
  unfold Ram.uvmalloc at hrun
  rw [if_neg (Nat.not_lt.mpr hle)] at hrun
  rcases bind_eq_ok.mp hrun with ⟨⟨x1, done⟩, hloop, hrun⟩
  cases done with
  | false =>
    cases hrun
    exact absurd rfl hpos
  | true =>
    cases hrun
    have hpages : Ram.uvmallocLoop (pgroundup oldsz) xperm
        (pagesBetween (pgroundup oldsz) newsz) x r (pages oldsz * PGSIZE) = .ok (y, true) := by
      rw [← pgroundup_eq]
      exact hloop
    exact ⟨rfl, uvmallocLoop_filled htree hpages⟩

theorem uvmalloc_data (htree : Tree x.kmem r)
    (hrun : x.uvmalloc r oldsz newsz xperm = .ok (y, sz)) (q : Page)
    (hq : nodes x.kmem r q + x.kmem.free.count q = 0) : y.data q = x.data q := by
  unfold Ram.uvmalloc at hrun
  split at hrun
  · cases hrun
    rfl
  rcases bind_eq_ok.mp hrun with ⟨⟨x1, done⟩, hloop, hrun⟩
  have hround : pgroundup oldsz = pgroundup oldsz / PGSIZE * PGSIZE := by
    unfold pgroundup PGSIZE
    omega
  rw [hround] at hloop
  cases done with
  | false =>
    cases hrun
    exact (uvmallocLoop_undone htree hloop).moves.data q hq
  | true =>
    cases hrun
    exact (uvmallocLoop_filled htree hloop).moves.data q hq

/-!
## Copying
-/

/-- The child's virtual pages from `lo` on, `n` of them, are copies of the parent's. -/
structure Copied (x y : Ram) (old new : Page) (lo n : Nat) : Prop where
  inner : Inner y.kmem new
  moves : Moves x y (nodes x.kmem new)
    (fun q => nodes y.kmem new q + mappedIn (leafAt y.kmem new) lo n q)
  absent : forall v, lo <= v -> v < lo + n -> (leafAt x.kmem old v).v = false ->
    (leafAt y.kmem new v).v = false
  present : forall v, lo <= v -> v < lo + n -> (leafAt x.kmem old v).v = true ->
    exists pa, pa ∈ x.kmem.free ∧ leafAt y.kmem new v = (leafAt x.kmem old v).perm.pte pa ∧
      y.data pa = x.data (leafAt x.kmem old v).ppn
  kept : forall v, v < VPNS -> (v < lo ∨ lo + n <= v) ->
    leafAt y.kmem new v = leafAt x.kmem new v
  suffix : y.kmem.free <:+ x.kmem.free

/-- The parent and the child before the page `lo` is copied; `Y` is what the child does not
use. -/
structure Copying (x : Ram) (old new : Page) (lo : Nat) (Y : Page -> Nat) : Prop where
  inner : Inner x.kmem new
  good : Good x.kmem (fun q => nodes x.kmem new q + Y q)
  parent : forall q, use x.kmem old q <= Y q
  bound : lo <= USERTOP
  empty : forall v, lo <= v -> v < USERTOP -> (leafAt x.kmem new v).v = false
  fixedOld : (leafAt x.kmem old USERTOP).v = true
  fixedNew : (leafAt x.kmem new USERTOP).v = true

section

variable {old new : Page} {lo n : Nat} {Y : Page -> Nat}

theorem Copying.tree (h : Copying x old new lo Y) : Tree x.kmem new :=
  ⟨h.inner, h.good.mono fun _ => Nat.le_add_right _ _⟩

theorem Copying.next (h : Copying x old new lo Y) (hlo : lo < USERTOP) :
    Copying x old new (lo + 1) Y :=
  { h with
    bound := hlo
    empty := fun v h1 h2 => h.empty v (by omega) h2 }

theorem Copying.leaf (h : Copying x old new lo Y) {v : Nat} (hv : v < USERTOP)
    (hvalid : (leafAt x.kmem old v).v = true) :
    nodes x.kmem new (leafAt x.kmem old v).ppn + x.kmem.free.count (leafAt x.kmem old v).ppn =
      0 := by
  have huse := leaf_in_use hv hvalid
  have hparent := h.parent (leafAt x.kmem old v).ppn
  have hone := h.good.le_one (leafAt x.kmem old v).ppn
  omega

theorem Copying.moved {X : Page -> Nat} (h : Copying x old new lo Y) (hinner : Inner y.kmem new)
    (hmoves : Moves x y (nodes x.kmem new) (fun q => nodes y.kmem new q + X q))
    (hkept : forall v, v < VPNS -> lo < v -> leafAt y.kmem new v = leafAt x.kmem new v)
    (hlo : lo < USERTOP) : Copying y old new (lo + 1) Y ∧ Same x.kmem y.kmem old := by
  have htop := USERTOP_le
  have hsame := hmoves.conserve.same_of_good h.good fun p =>
    (nodes_le_use x.kmem old p).trans (h.parent p)
  refine ⟨⟨hinner, ?_, ?_, hlo, ?_, ?_, ?_⟩, hsame⟩
  · refine (h.good.conserve (hmoves.conserve.add Y)).mono fun q => ?_
    omega
  · intro q
    rw [hsame.use_eq q]
    exact h.parent q
  · intro v h1 h2
    rw [hkept v (by omega) (by omega)]
    exact h.empty v (by omega) h2
  · rw [hsame.leaf_eq]
    exact h.fixedOld
  · rw [hkept _ (by omega) hlo]
    exact h.fixedNew

theorem ram_uvmcopyLoop_skip (hlo : lo * PGSIZE < MAXVA)
    (hinvalid : (leafAt x.kmem old lo).v = false) :
    Ram.uvmcopyLoop old new (n + 1) x (lo * PGSIZE) =
      Ram.uvmcopyLoop old new n x ((lo + 1) * PGSIZE) := by
  conv_lhs => unfold Ram.uvmcopyLoop
  rw [walk_false hlo, (page_addr lo).2, page_addr_succ]
  cases hloc : sv39.locate x.kmem.entry 2 old lo with
  | none => rfl
  | some slot =>
    rw [leafAt_of_locate hloc] at hinvalid
    simp only [bind, Except.bind, hinvalid, Bool.not_false, if_true]

theorem ram_uvmcopyLoop_page {done : Bool} (h : Copying x old new lo Y)
    (hvalid : (leafAt x.kmem old lo).v = true)
    (hrun : Ram.uvmcopyLoop old new (n + 1) x (lo * PGSIZE) = .ok (y, done)) :
    (exists mem z, mem ∈ x.kmem.free ∧ z.kmem.free <:+ x.kmem.free ∧ lo < USERTOP ∧
      Inner z.kmem new ∧ Moves x z (nodes x.kmem new) (fun q => nodes z.kmem new q + one mem q) ∧
      z.data mem = x.data (leafAt x.kmem old lo).ppn ∧
      (forall w, w < VPNS -> leafAt z.kmem new w =
        if w = lo then (leafAt x.kmem old lo).perm.pte mem else leafAt x.kmem new w) ∧
      forall j, Ram.uvmcopyLoop old new (j + 1) x (lo * PGSIZE) =
        Ram.uvmcopyLoop old new j z ((lo + 1) * PGSIZE)) ∨
    done = false ∧ exists z : Ram, Inner z.kmem new ∧
      Moves x z (nodes x.kmem new) (nodes z.kmem new) ∧
      (forall w, w < VPNS -> leafAt z.kmem new w = leafAt x.kmem new w) ∧
      z.uvmunmap new 0 lo true = .ok y := by
  have hmax : lo * PGSIZE < MAXVA := page_addr_lt (by have := h.bound; omega)
  rcases locate_of_valid hvalid with ⟨⟨p, k⟩, hloc⟩
  have hentry := leafAt_of_locate hloc
  rw [hentry] at hvalid ⊢
  unfold Ram.uvmcopyLoop at hrun
  rw [walk_false hmax, (page_addr lo).2, hloc, ok_bind] at hrun
  simp only [hvalid, Bool.not_true, Bool.false_eq_true, if_false] at hrun
  cases halloc : x.kalloc with
  | none =>
    rw [halloc] at hrun
    rcases bind_eq_ok.mp hrun with ⟨z, hun, hrun⟩
    cases hrun
    exact .inr ⟨rfl, x, h.inner, Moves.refl x _, fun _ _ => rfl, hun⟩
  | some taken =>
    rcases taken with ⟨mem, x1⟩
    rw [halloc] at hrun
    rcases bind_eq_ok.mp hrun with ⟨⟨x2, mapped⟩, hmap, hrun⟩
    have htaken := taken_copied halloc (x.kmem.entry p k).ppn
    rcases htaken.map h.tree hmap with ⟨hsuffix, hyes, hno⟩
    cases mapped with
    | false =>
      rcases hno rfl with ⟨x3, hfree, hinner, hmoves, hleaf⟩
      rcases bind_eq_ok.mp hrun with ⟨x4, hfree', hrun⟩
      rw [hfree] at hfree'
      cases hfree'
      rcases bind_eq_ok.mp hrun with ⟨z, hun, hrun⟩
      cases hrun
      exact .inr ⟨rfl, x3, hinner, hmoves, hleaf, hun⟩
    | true =>
      rcases hyes rfl with ⟨hinner, hunmapped, hmoves, hdata, hleaf⟩
      rw [(page_addr lo).2] at hunmapped hleaf
      have hlo : lo < USERTOP := by
        have hbound := h.bound
        by_contra hge
        have heq : lo = USERTOP := by
          omega
        rw [heq, h.fixedNew] at hunmapped
        cases hunmapped
      have hsrc : (x.kmem.entry p k).ppn ≠ mem := by
        intro heq
        have hused := h.leaf hlo (by rw [hentry]; exact hvalid)
        rw [hentry, heq] at hused
        have hcount := List.count_pos_iff.mpr htaken.free
        omega
      refine .inl ⟨mem, x2, htaken.free, hsuffix, hlo, hinner, hmoves, ?_, hleaf, ?_⟩
      · rw [hdata, kalloc_data halloc, update_of_ne hsrc]
      · intro j
        conv_lhs => unfold Ram.uvmcopyLoop
        rw [walk_false hmax, (page_addr lo).2, hloc, ok_bind]
        simp only [hvalid, Bool.not_true, Bool.false_eq_true, if_false, halloc]
        rw [hmap, ok_bind, page_addr_succ]
        rfl

theorem uvmcopyLoop_copied (h : Copying x old new lo Y)
    (hrun : Ram.uvmcopyLoop old new n x (lo * PGSIZE) = .ok (y, true)) :
    lo + n <= USERTOP ∧ Copied x y old new lo n := by
  have htop := USERTOP_le
  induction n generalizing x lo with
  | zero =>
    cases hrun
    refine ⟨h.bound, h.inner, (Moves.refl _ _).congr (fun _ => rfl) fun q => ?_, ?_, ?_,
      fun _ _ _ => rfl, List.suffix_rfl⟩
    · rw [mappedIn_eq_zero lo q fun v h1 h2 => absurd h2 (by omega), Nat.add_zero]
    · intro v h1 h2
      omega
    · intro v h1 h2
      omega
  | succ n ih =>
    cases hvalid : (leafAt x.kmem old lo).v with
    | false =>
      have hlo : lo < USERTOP := by
        have hbound := h.bound
        by_contra hge
        have heq : lo = USERTOP := by
          omega
        rw [heq, h.fixedOld] at hvalid
        cases hvalid
      rw [ram_uvmcopyLoop_skip (page_addr_lt (by omega)) hvalid] at hrun
      rcases ih (h.next hlo) hrun with ⟨hend, hcopied⟩
      refine ⟨by omega, hcopied.inner, hcopied.moves.congr (fun _ => rfl) fun q => ?_, ?_, ?_, ?_,
        hcopied.suffix⟩
      · have hempty := h.empty lo (Nat.le_refl lo) hlo
        rw [← hcopied.kept lo (by omega) (by omega)] at hempty
        rw [mappedIn_succ, leafUse_of_invalid hempty, Nat.zero_add]
      · intro v h1 h2 hno
        by_cases hv : v = lo
        · rw [hv, hcopied.kept lo (by omega) (by omega)]
          exact h.empty lo (Nat.le_refl lo) hlo
        · exact hcopied.absent v (by omega) (by omega) hno
      · intro v h1 h2 hyes
        by_cases hv : v = lo
        · rw [hv, hvalid] at hyes
          cases hyes
        · exact hcopied.present v (by omega) (by omega) hyes
      · intro v hv hout
        exact hcopied.kept v hv (by omega)
    | true =>
      rcases ram_uvmcopyLoop_page h hvalid hrun with
        ⟨mem, z, hmem, hsuffix, hlo, hinner, hmoves, hdata, hleaf, hrest⟩ | ⟨hno, _⟩
      · rw [hrest n] at hrun
        have hkept : forall v, v < VPNS -> lo < v ->
            leafAt z.kmem new v = leafAt x.kmem new v := by
          intro v hv hgt
          rw [hleaf v hv, if_neg (by omega)]
        rcases h.moved hinner hmoves hkept hlo with ⟨hnext, hsame⟩
        rcases ih hnext hrun with ⟨hend, hcopied⟩
        have hself : leafAt y.kmem new lo = (leafAt x.kmem old lo).perm.pte mem := by
          rw [hcopied.kept lo (by omega) (by omega), hleaf lo (by omega), if_pos rfl]
        refine ⟨by omega, hcopied.inner, ?_, ?_, ?_, ?_, hcopied.suffix.trans hsuffix⟩
        · refine (hmoves.trans (hcopied.moves.add (one mem))).congr (fun _ => rfl) ?_
          intro q
          rw [mappedIn_succ, leafUse_of_valid (by rw [hself]; rfl), hself]
          have hppn : ((leafAt x.kmem old lo).perm.pte mem).ppn = mem := rfl
          rw [hppn]
          omega
        · intro v h1 h2 hno
          by_cases hv : v = lo
          · rw [hv, hvalid] at hno
            cases hno
          · refine hcopied.absent v (by omega) (by omega) ?_
            rw [hsame.leaf_eq]
            exact hno
        · intro v h1 h2 hyes
          by_cases hv : v = lo
          · subst hv
            refine ⟨mem, hmem, hself, ?_⟩
            have hone := (h.tree.good.conserve hmoves.conserve).le_one mem
            rw [one_self] at hone
            rw [hcopied.moves.data mem (by omega), hdata]
          · rw [← hsame.leaf_eq] at hyes
            rcases hcopied.present v (by omega) (by omega) hyes with ⟨pa, hfree, hpa, hbytes⟩
            rw [hsame.leaf_eq] at hpa hbytes hyes
            refine ⟨pa, hsuffix.subset hfree, hpa, ?_⟩
            rw [hbytes, hmoves.data _ (h.leaf (by omega) hyes)]
        · intro v hv hout
          rw [hcopied.kept v hv (by omega), hleaf v hv, if_neg (by omega)]
      · cases hno

theorem uvmcopyLoop_failed (h : Copying x old new lo Y)
    (hrun : Ram.uvmcopyLoop old new n x (lo * PGSIZE) = .ok (y, false)) :
    exists j x1 x2, Ram.uvmcopyLoop old new j x (lo * PGSIZE) = .ok (x1, true) ∧
      Inner x2.kmem new ∧ Moves x1 x2 (nodes x1.kmem new) (nodes x2.kmem new) ∧
      (forall w, w < VPNS -> leafAt x2.kmem new w = leafAt x1.kmem new w) ∧
      x2.uvmunmap new 0 (lo + j) true = .ok y := by
  have htop := USERTOP_le
  induction n generalizing x lo with
  | zero => cases hrun
  | succ n ih =>
    cases hvalid : (leafAt x.kmem old lo).v with
    | false =>
      have hlo : lo < USERTOP := by
        have hbound := h.bound
        by_contra hge
        have heq : lo = USERTOP := by
          omega
        rw [heq, h.fixedOld] at hvalid
        cases hvalid
      rw [ram_uvmcopyLoop_skip (page_addr_lt (by omega)) hvalid] at hrun
      rcases ih (h.next hlo) hrun with ⟨j, x1, x2, hfirst, hinner, hmoves, hleaf, hun⟩
      refine ⟨j + 1, x1, x2, ?_, hinner, hmoves, hleaf, ?_⟩
      · rw [ram_uvmcopyLoop_skip (page_addr_lt (by omega)) hvalid]
        exact hfirst
      · rw [← Nat.add_assoc, Nat.add_right_comm]
        exact hun
    | true =>
      rcases ram_uvmcopyLoop_page h hvalid hrun with
        ⟨mem, z, hmem, hsuffix, hlo, hinner, hmoves, hdata, hleaf, hrest⟩ |
        ⟨_, z, hinner, hmoves, hleaf, hun⟩
      · rw [hrest n] at hrun
        have hkept : forall v, v < VPNS -> lo < v ->
            leafAt z.kmem new v = leafAt x.kmem new v := by
          intro v hv hgt
          rw [hleaf v hv, if_neg (by omega)]
        rcases ih (h.moved hinner hmoves hkept hlo).1 hrun with
          ⟨j, x1, x2, hfirst, hinner', hmoves', hleaf', hun⟩
        refine ⟨j + 1, x1, x2, ?_, hinner', hmoves', hleaf', ?_⟩
        · rw [hrest j]
          exact hfirst
        · rw [← Nat.add_assoc, Nat.add_right_comm]
          exact hun
      · exact ⟨0, x, z, rfl, hinner, hmoves, hleaf, hun⟩

theorem uvmcopyLoop_undone (h : Copying x old new 0 Y)
    (hrun : Ram.uvmcopyLoop old new n x 0 = .ok (y, false)) :
    Inner y.kmem new ∧ Moves x y (nodes x.kmem new) (nodes y.kmem new) ∧
      (forall v, v < USERTOP -> (leafAt y.kmem new v).v = false) ∧
      forall v, v < VPNS -> USERTOP <= v -> leafAt y.kmem new v = leafAt x.kmem new v := by
  have htop := USERTOP_le
  rcases uvmcopyLoop_failed h (by rw [Nat.zero_mul]; exact hrun) with
    ⟨j, x1, x2, hfirst, hinner, hmoves, hleaf, hun⟩
  rcases uvmcopyLoop_copied h hfirst with ⟨hend, hcopied⟩
  rw [Nat.zero_add] at hend hun
  have hmapped : forall q, mappedIn (leafAt x2.kmem new) 0 j q =
    mappedIn (leafAt x1.kmem new) 0 j q := by
    intro q
    refine mappedIn_congr 0 q ?_
    intro v h1 h2
    rw [hleaf v (by omega)]
  have hall : Moves x x2 (nodes x.kmem new)
      (fun q => nodes x2.kmem new q + mappedIn (leafAt x2.kmem new) 0 j q) :=
    (hcopied.moves.trans (hmoves.add (mappedIn (leafAt x1.kmem new) 0 j))).congr (fun _ => rfl)
      fun q => by rw [hmapped q]
  have hkmem : uvmunmap x2.kmem new 0 j true = .ok y.kmem := by
    rw [← uvmunmap_kmem, hun]
    rfl
  have hzero : 0 / PGSIZE = 0 := by
    decide
  have hmax : USERTOP <= MAXVA / PGSIZE := by
    decide
  rcases uvmunmap_spec true (a := 0) (n := j) (by decide) (by rw [hzero]; omega) hinner (by
    rw [hzero]
    exact h.tree.good.conserve hall.conserve) with ⟨m', hrun', hspec⟩
  rw [hkmem] at hrun'
  cases hrun'
  rw [hzero] at hspec
  have hkept : forall v, v < VPNS -> j <= v -> leafAt y.kmem new v = leafAt x.kmem new v := by
    intro v hv hge
    rw [hspec.kept v hv (by omega), hleaf v hv, hcopied.kept v hv (by omega)]
  refine ⟨hspec.inner, hall.trans ((freeing_uvmunmap hun).moves hspec.conserve), ?_, ?_⟩
  · intro v hv
    by_cases hin : v < j
    · exact hspec.gone v (by omega) (by omega) (by omega)
    · rw [hkept v (by omega) (by omega)]
      exact h.empty v (Nat.zero_le v) hv
  · intro v hv hge
    exact hkept v hv (by omega)

end

end

end Vm
end Xv6
