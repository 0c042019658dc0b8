import Xv6.Lib.Table
import Xv6.Vm.Walk

/-!
# Mapping and unmapping pages

The specifications of `mappages` and `uvmunmap`.  A page table is seen as its
pages, `nodes`, and the entry of each virtual page, `leafAt`.
-/

namespace Xv6
namespace Vm

open Lib

variable {a i n v : Nat} {m m' : Kmem} {p r : Page} {doFree : Bool}

def VPNS : Nat := 512 ^ 3

def USERTOP : Nat := TRAPFRAME / PGSIZE

def nodes (m : Kmem) (r q : Page) : Nat :=
  sv39.uses m.entry 2 r q

def leafAt (m : Kmem) (r : Page) (v : Nat) : Pte :=
  sv39.leaf Pte.zero m.entry 2 r v

def Inner (m : Kmem) (r : Page) : Prop :=
  sv39.Inner Pointer m.entry 2 r

def leafUse (e : Pte) (q : Page) : Nat :=
  if e.v = true ∧ e.ppn = q then 1 else 0

theorem leafUse_of_invalid {e : Pte} (h : e.v = false) (q : Page) : leafUse e q = 0 := by
  simp [leafUse, h]

theorem leafUse_of_valid {e : Pte} (h : e.v = true) (q : Page) :
    leafUse e q = one e.ppn q := by
  simp [leafUse, one, h]

/-- How often the `n` virtual pages from `lo` on map the page `q`. -/
def mappedIn (L : Nat -> Pte) (lo n : Nat) (q : Page) : Nat :=
  ∑ i ∈ Finset.range n, leafUse (L (lo + i)) q

theorem mappedIn_succ (L : Nat -> Pte) (lo n : Nat) (q : Page) :
    mappedIn L lo (n + 1) q = leafUse (L lo) q + mappedIn L (lo + 1) n q := by
  unfold mappedIn
  rw [Finset.sum_range_succ', Nat.add_comm]
  congr 1
  apply Finset.sum_congr rfl
  intro i _
  rw [Nat.add_assoc, Nat.add_comm 1 i]

theorem mappedIn_congr {L L' : Nat -> Pte} (lo : Nat) (q : Page)
    (h : forall v, lo <= v -> v < lo + n -> leafUse (L' v) q = leafUse (L v) q) :
    mappedIn L' lo n q = mappedIn L lo n q := by
  apply Finset.sum_congr rfl
  intro i hi
  exact h _ (Nat.le_add_right _ _) (Nat.add_lt_add_left (Finset.mem_range.mp hi) _)

theorem mappedIn_split (L : Nat -> Pte) (lo n k : Nat) (q : Page) :
    mappedIn L lo (n + k) q = mappedIn L lo n q + mappedIn L (lo + n) k q := by
  unfold mappedIn
  rw [Finset.sum_range_add]
  congr 1
  apply Finset.sum_congr rfl
  intro i _
  rw [Nat.add_assoc]

theorem mappedIn_eq_zero {L : Nat -> Pte} (lo : Nat) (q : Page)
    (h : forall v, lo <= v -> v < lo + n -> (L v).v = false) : mappedIn L lo n q = 0 := by
  apply Finset.sum_eq_zero
  intro i hi
  exact leafUse_of_invalid
    (h _ (Nat.le_add_right _ _) (Nat.add_lt_add_left (Finset.mem_range.mp hi) _)) q

theorem mappedIn_update (L L' : Nat -> Pte) (hv : v < n)
    (h : forall w, w < n -> w ≠ v -> L' w = L w) (q : Page) :
    mappedIn L' 0 n q + leafUse (L v) q = mappedIn L 0 n q + leafUse (L' v) q := by
  unfold mappedIn
  simp only [Nat.zero_add]
  apply sum_range_update hv
  intro w hw hne
  rw [h w hw hne]

theorem vpn_lt {va : Nat} (h : va < MAXVA) : va / PGSIZE < VPNS := by
  unfold MAXVA at h
  unfold PGSIZE VPNS
  omega

/-!
## One entry
-/

theorem set_leaf (e : Pte) (hle : forall q, nodes m r q <= 1) (hv : v < VPNS)
    (hloc : sv39.locate m.entry 2 r v = some (p, i)) :
    (forall q, nodes (m.set p i e) r q = nodes m r q) ∧
      (forall w, w < VPNS -> leafAt (m.set p i e) r w = if w = v then e else leafAt m r w) ∧
      (Inner m r -> Inner (m.set p i e) r) := by
  have hset := sv39.locate_set e hle hloc
  refine ⟨hset.left, ?_, hset.right.right Pointer⟩
  intro w hw
  exact sv39.leaf_set e hle hloc hv hw

theorem leafAt_of_locate
    (hloc : sv39.locate m.entry 2 r v = some (p, i)) : leafAt m r v = m.entry p i := by
  unfold leafAt Radix.leaf
  rw [hloc]

theorem leafAt_of_locate_none
    (hloc : sv39.locate m.entry 2 r v = none) : leafAt m r v = Pte.zero := by
  unfold leafAt Radix.leaf
  rw [hloc]

theorem locate_of_valid (h : (leafAt m r v).v = true) :
    exists x, sv39.locate m.entry 2 r v = some x := by
  cases hloc : sv39.locate m.entry 2 r v with
  | none =>
    rw [leafAt_of_locate_none hloc] at h
    cases h
  | some x => exact ⟨x, rfl⟩

structure Mapped (m m' : Kmem) (r : Page) (v : Nat) (e : Pte) (done : Bool) : Prop where
  conserve : Conserve m m' (nodes m r) (nodes m' r)
  inner : Inner m' r
  leaf_eq : forall w, w < VPNS ->
    leafAt m' r w = if done = true ∧ w = v then e else leafAt m r w
  free_le : m'.free.length <= m.free.length

theorem mappages_page {va : Nat} (pa : Page) (perm : Perm)
    (hva : va < MAXVA) (halign : va % PGSIZE = 0) (hinner : Inner m r)
    (hle : forall q, nodes m r q + m.free.count q <= 1)
    (hfree : (leafAt m r (va / PGSIZE)).v = false) :
    exists m' done, mappages m r va PGSIZE pa perm = .ok (m', done) ∧
      Mapped m m' r (va / PGSIZE) (perm.pte pa) done := by
  have hmap : mappages m r va PGSIZE pa perm = mappagesLoop 1 m r va pa perm := by
    unfold mappages
    rw [if_neg (by simpa using halign), if_neg (by decide), if_neg (by decide)]
    rfl
  have hwalk : walk m r va true = .ok (walkLoop true 2 m r va) := by
    unfold walk
    rw [if_neg (Nat.not_le.mpr hva)]
  rw [hmap]
  unfold mappagesLoop
  rw [hwalk]
  rcases hres : walkLoop true 2 m r va with ⟨m1, loc⟩
  rcases walkLoop_true hinner hle hres with ⟨hext, hloc, _⟩
  cases loc with
  | none =>
    refine ⟨m1, false, rfl, ⟨hext.conserve, hext.inner, ?_, hext.free_le⟩⟩
    intro w _
    rw [if_neg (fun h => by cases h.left)]
    exact hext.leaf_eq w
  | some x =>
    rcases x with ⟨p, i⟩
    have hat := hloc _ rfl
    have hle1 : forall q, nodes m1 r q <= 1 := by
      intro q
      have htotal := hext.conserve.total q
      have hone := hle q
      unfold nodes at hone ⊢
      omega
    have hentry : (m1.entry p i).v = false := by
      have hleaf := hext.leaf_eq (va / PGSIZE)
      have heq : leafAt m1 r (va / PGSIZE) = m1.entry p i := leafAt_of_locate hat
      rw [← heq]
      unfold leafAt at hfree ⊢
      rw [hleaf]
      exact hfree
    rcases set_leaf (perm.pte pa) hle1 (vpn_lt hva) hat with ⟨hnodes, hleaf, hinner'⟩
    refine ⟨m1.set p i (perm.pte pa), true, ?_, ?_, hinner' hext.inner, ?_, hext.free_le⟩
    · simp only [bind, Except.bind, hentry]
      rfl
    · have huse := (sv39.locate_uses hat).left
      have hset : Conserve m1 (m1.set p i (perm.pte pa)) (nodes m1 r) (nodes m1 r) :=
        Conserve.set (by unfold nodes; omega) i _
      exact hext.conserve.trans (hset.congr (fun _ => rfl) hnodes)
    · intro w hw
      rw [hleaf w hw]
      by_cases hwv : w = va / PGSIZE
      · rw [if_pos hwv, if_pos ⟨rfl, hwv⟩]
      · rw [if_neg hwv, if_neg (fun h => hwv h.right)]
        exact hext.leaf_eq w

/-!
## Frames
-/

structure Same (m m' : Kmem) (r : Page) : Prop where
  nodes_eq : forall q, nodes m' r q = nodes m r q
  leaf_eq : forall v, leafAt m' r v = leafAt m r v
  locate_eq : forall v, sv39.locate m'.entry 2 r v = sv39.locate m.entry 2 r v
  inner : Inner m r -> Inner m' r

theorem Same.refl (m : Kmem) (r : Page) : Same m m r :=
  { nodes_eq := fun _ => rfl
    leaf_eq := fun _ => rfl
    locate_eq := fun _ => rfl
    inner := fun h => h }

theorem same_of_agree (h : sv39.Agree m.entry m'.entry 2 r) :
    Same m m' r :=
  { nodes_eq := sv39.uses_congr h
    leaf_eq := sv39.leaf_congr h
    locate_eq := sv39.locate_congr h
    inner := sv39.inner_congr h }

theorem Conserve.same {X X' : Page -> Nat} (h : Conserve m m' X X')
    (hdisj : forall p, nodes m r p ≠ 0 -> X p + m.free.count p = 0) : Same m m' r := by
  apply same_of_agree
  intro p hp i _
  rw [h.frame p (hdisj p hp)]

theorem Conserve.same_of_good {X X' Y : Page -> Nat} (h : Conserve m m' X X')
    (hgood : Good m (fun q => X q + Y q)) (hr : forall p, nodes m r p <= Y p) :
    Same m m' r := by
  apply h.same
  intro p hp
  have hle := hgood.le_one p
  have hnodes := hr p
  omega

/-!
## `uvmunmap`
-/

def freed (doFree : Bool) (L : Nat -> Pte) (lo n : Nat) (q : Page) : Nat :=
  if doFree then mappedIn L lo n q else 0

structure Unmapped (m m' : Kmem) (r : Page) (lo n : Nat) (X : Page -> Nat) : Prop where
  conserve : Conserve m m' (fun q => nodes m r q + X q) (nodes m' r)
  inner : Inner m' r
  gone : forall w, w < VPNS -> lo <= w -> w < lo + n -> (leafAt m' r w).v = false
  kept : forall w, w < VPNS -> (w < lo ∨ lo + n <= w) -> leafAt m' r w = leafAt m r w

theorem unmap_entry (doFree : Bool) (hv : v < VPNS) (hinner : Inner m r)
    (hloc : sv39.locate m.entry 2 r v = some (p, i))
    (hgood : Good m (fun q => nodes m r q + if doFree then one (m.entry p i).ppn q else 0)) :
    exists m', (if doFree then kfree m (m.entry p i).ppn else .ok m) = .ok m' ∧
      Unmapped m (m'.set p i Pte.zero) r v 1
        (fun q => if doFree then one (m.entry p i).ppn q else 0) := by
  have hfree : exists m', (if doFree then kfree m (m.entry p i).ppn else .ok m) = .ok m' ∧
      Conserve m m' (fun q => if doFree then one (m.entry p i).ppn q else 0) (fun _ => 0) := by
    cases doFree with
    | false => exact ⟨m, rfl, Conserve.refl m _⟩
    | true =>
      have hpage : Good m (fun q => 0 + one (m.entry p i).ppn q) := by
        apply hgood.mono
        intro q
        simp only [if_true]
        omega
      rcases kfree_conserve hpage with ⟨m', hrun, hcons⟩
      exact ⟨m', hrun, hcons.congr (fun q => (Nat.zero_add _).symm) (fun _ => rfl)⟩
  rcases hfree with ⟨m', hrun, hcons⟩
  have hsame : Same m m' r := by
    apply hcons.same
    intro q hq
    have hle := hgood.le_one q
    omega
  have hle : forall q, nodes m' r q <= 1 := by
    intro q
    rw [hsame.nodes_eq q]
    have hone := hgood.le_one q
    omega
  have hloc' : sv39.locate m'.entry 2 r v = some (p, i) := by
    rw [hsame.locate_eq]
    exact hloc
  rcases set_leaf Pte.zero hle hv hloc' with ⟨hnodes, hleaf, hinner'⟩
  refine ⟨m', hrun, ?_, hinner' (hsame.inner hinner), ?_, ?_⟩
  · have huse := (sv39.locate_uses hloc').left
    have hset : Conserve m' (m'.set p i Pte.zero) (nodes m' r) (nodes m' r) :=
      Conserve.set (by unfold nodes; omega) i _
    apply ((hcons.add (nodes m r)).trans (hset.congr ?_ (fun _ => rfl))).congr
    · intro q
      exact Nat.add_comm _ _
    · exact hnodes
    · intro q
      rw [hsame.nodes_eq q, Nat.zero_add]
  · intro w hw hlo hhi
    have hwv : w = v := by omega
    rw [hleaf w hw, if_pos hwv]
    rfl
  · intro w hw hout
    rw [hleaf w hw, if_neg (by omega)]
    exact hsame.leaf_eq w

theorem Unmapped.skip {lo : Nat} (hinvalid : (leafAt m r lo).v = false)
    (h : Unmapped m m' r (lo + 1) n (freed doFree (leafAt m r) (lo + 1) n)) :
    Unmapped m m' r lo (n + 1) (freed doFree (leafAt m r) lo (n + 1)) := by
  constructor
  · apply h.conserve.congr _ (fun _ => rfl)
    intro q
    unfold freed
    rw [mappedIn_succ, leafUse_of_invalid hinvalid, Nat.zero_add]
  · exact h.inner
  · intro w hw hlo hhi
    by_cases hwlo : w = lo
    · rw [h.kept w hw (by omega), hwlo]
      exact hinvalid
    · exact h.gone w hw (by omega) (by omega)
  · intro w hw hout
    exact h.kept w hw (by omega)

theorem Unmapped.cons {m1 : Kmem} {lo : Nat}
    (hend : lo + 1 + n <= VPNS) (hvalid : (leafAt m r lo).v = true)
    (h : Unmapped m m1 r lo 1 (fun q => if doFree then one (leafAt m r lo).ppn q else 0))
    (h' : Unmapped m1 m' r (lo + 1) n (freed doFree (leafAt m1 r) (lo + 1) n)) :
    Unmapped m m' r lo (n + 1) (freed doFree (leafAt m r) lo (n + 1)) := by
  have hrest : forall q, freed doFree (leafAt m1 r) (lo + 1) n q =
      freed doFree (leafAt m r) (lo + 1) n q := by
    intro q
    unfold freed
    rw [mappedIn_congr _ q (fun w hw hlt => by rw [h.kept w (by omega) (by omega)])]
  constructor
  · have hfirst := h.conserve.add (freed doFree (leafAt m1 r) (lo + 1) n)
    apply (hfirst.trans h'.conserve).congr _ (fun _ => rfl)
    intro q
    rw [hrest q]
    unfold freed
    cases doFree with
    | false => simp
    | true =>
      simp only [if_true]
      rw [mappedIn_succ, leafUse_of_valid hvalid]
      omega
  · exact h'.inner
  · intro w hw hge hlt
    by_cases hwlo : w = lo
    · rw [h'.kept w hw (by omega)]
      exact h.gone w hw (by omega) (by omega)
    · exact h'.gone w hw (by omega) (by omega)
  · intro w hw hout
    rw [h'.kept w hw (by omega), h.kept w hw (by omega)]

theorem next_page (halign : a % PGSIZE = 0) :
    (a + PGSIZE) % PGSIZE = 0 ∧ (a + PGSIZE) / PGSIZE = a / PGSIZE + 1 := by
  unfold PGSIZE at *
  omega

theorem uvmunmapLoop_skip (hva : a < MAXVA) (hinvalid : (leafAt m r (a / PGSIZE)).v = false) :
    uvmunmapLoop doFree (n + 1) m r a = uvmunmapLoop doFree n m r (a + PGSIZE) := by
  conv_lhs => unfold uvmunmapLoop
  rw [walk_false hva]
  cases hloc : sv39.locate m.entry 2 r (a / PGSIZE) with
  | none => rfl
  | some x =>
    rw [leafAt_of_locate hloc] at hinvalid
    simp only [bind, Except.bind, hinvalid, Bool.not_false, if_true]

theorem uvmunmapLoop_clear {m1 : Kmem} (hva : a < MAXVA)
    (hloc : sv39.locate m.entry 2 r (a / PGSIZE) = some (p, i)) (hvalid : (m.entry p i).v = true)
    (hfree : (if doFree then kfree m (m.entry p i).ppn else .ok m) = .ok m1) :
    uvmunmapLoop doFree (n + 1) m r a =
      uvmunmapLoop doFree n (m1.set p i Pte.zero) r (a + PGSIZE) := by
  conv_lhs => unfold uvmunmapLoop
  rw [walk_false hva, hloc]
  cases doFree with
  | false =>
    cases hfree
    simp only [bind, Except.bind, hvalid, Bool.not_true, Bool.false_eq_true, if_false, pure,
      Except.pure]
  | true =>
    simp only [if_true] at hfree
    simp only [bind, Except.bind, hvalid, Bool.not_true, Bool.false_eq_true, if_false, hfree,
      if_true]

theorem uvmunmapLoop_spec (doFree : Bool)
    (halign : a % PGSIZE = 0) (hbound : a / PGSIZE + n <= MAXVA / PGSIZE) (hinner : Inner m r)
    (hgood : Good m (fun q => nodes m r q + freed doFree (leafAt m r) (a / PGSIZE) n q)) :
    exists m', uvmunmapLoop doFree n m r a = .ok m' ∧
      Unmapped m m' r (a / PGSIZE) n (freed doFree (leafAt m r) (a / PGSIZE) n) := by
  induction n generalizing m a with
  | zero =>
    refine ⟨m, rfl, ?_, hinner, ?_, fun _ _ _ => rfl⟩
    · apply (Conserve.refl m (nodes m r)).congr _ (fun _ => rfl)
      intro q
      simp [freed, mappedIn]
    · intro w _ hge hlt
      omega
  | succ n ih =>
    rcases next_page halign with ⟨halign', hdiv⟩
    have hva : a < MAXVA := by
      unfold MAXVA PGSIZE at *
      omega
    have hmax : MAXVA / PGSIZE <= VPNS := by decide
    have hlo : a / PGSIZE < VPNS := vpn_lt hva
    have hskip : (leafAt m r (a / PGSIZE)).v = false ->
        exists m', uvmunmapLoop doFree n m r (a + PGSIZE) = .ok m' ∧
          Unmapped m m' r (a / PGSIZE) (n + 1)
            (freed doFree (leafAt m r) (a / PGSIZE) (n + 1)) := by
      intro hinvalid
      rcases ih halign' (by omega) hinner (hgood.mono (fun q => by
        rw [hdiv]
        unfold freed
        rw [mappedIn_succ]
        split <;> omega)) with ⟨m', hrun, hun⟩
      rw [hdiv] at hun
      exact ⟨m', hrun, hun.skip hinvalid⟩
    cases hleaf : (leafAt m r (a / PGSIZE)).v with
    | false =>
      rw [uvmunmapLoop_skip hva hleaf]
      exact hskip hleaf
    | true =>
      rcases locate_of_valid hleaf with ⟨⟨p, i⟩, hloc⟩
      have hentry := leafAt_of_locate hloc
      rcases unmap_entry doFree hlo hinner hloc (hgood.mono (fun q => by
        unfold freed
        rw [mappedIn_succ, leafUse_of_valid hleaf, hentry]
        split <;> omega)) with ⟨m1, hfree, hun⟩
      rw [uvmunmapLoop_clear hva hloc (by rw [← hentry]; exact hleaf) hfree]
      rw [← hentry] at hun
      have hrest : forall q, freed doFree (leafAt (m1.set p i Pte.zero) r)
          (a / PGSIZE + 1) n q = freed doFree (leafAt m r) (a / PGSIZE + 1) n q := by
        intro q
        unfold freed
        rw [mappedIn_congr _ q (fun w hw hlt => by rw [hun.kept w (by omega) (by omega)])]
      have hgood1 : Good (m1.set p i Pte.zero) (fun q =>
          nodes (m1.set p i Pte.zero) r q +
            freed doFree (leafAt (m1.set p i Pte.zero) r) ((a + PGSIZE) / PGSIZE) n q) := by
        rw [hdiv]
        apply (hgood.mono (fun q => ?_)).conserve
          (hun.conserve.add (freed doFree (leafAt (m1.set p i Pte.zero) r)
            (a / PGSIZE + 1) n))
        rw [hrest q]
        unfold freed
        rw [mappedIn_succ, leafUse_of_valid hleaf]
        split <;> omega
      rcases ih halign' (by omega) hun.inner hgood1 with ⟨m', hrun, hun'⟩
      rw [hdiv] at hun'
      exact ⟨m', hrun, Unmapped.cons (by omega) hleaf hun hun'⟩

theorem uvmunmap_spec (doFree : Bool)
    (halign : a % PGSIZE = 0) (hbound : a / PGSIZE + n <= MAXVA / PGSIZE) (hinner : Inner m r)
    (hgood : Good m (fun q => nodes m r q + freed doFree (leafAt m r) (a / PGSIZE) n q)) :
    exists m', uvmunmap m r a n doFree = .ok m' ∧
      Unmapped m m' r (a / PGSIZE) n (freed doFree (leafAt m r) (a / PGSIZE) n) := by
  unfold uvmunmap
  rw [if_neg (by simpa using halign)]
  exact uvmunmapLoop_spec doFree halign hbound hinner hgood

end Vm
end Xv6
