import Xv6.Vm.PageTable
import Mathlib.Algebra.Order.Ring.Nat

/-!
# Walking and extending a page table

`walk` on a table whose pages are distinct finds the entry of an address; with
allocation it takes the missing tables from the free list and leaves the mapped
pages as they are.
-/

namespace Xv6
namespace Vm

open Lib

variable {i n depth : Nat} {m m' : Kmem} {r : Page} {is : List Nat}

def sv39 : Radix Page Pte :=
  { fanout := 512
    pos := by decide
    next := fun e => if e.v then some e.ppn else none }

def Pointer (e : Pte) : Prop :=
  e.r = false ∧ e.w = false ∧ e.x = false

theorem next_of_valid {e : Pte} (h : e.v = true) : sv39.next e = some e.ppn := by
  simp [sv39, h]

theorem next_of_invalid {e : Pte} (h : e.v = false) : sv39.next e = none := by
  simp [sv39, h]

theorem next_zero : sv39.next Pte.zero = none := by
  decide

theorem PX_eq_slot (level va : Nat) : PX level va = sv39.slot level (va / PGSIZE) := by
  have hpow : 2 ^ (12 + 9 * level) = PGSIZE * sv39.fanout ^ level := by
    change 2 ^ (12 + 9 * level) = 4096 * 512 ^ level
    rw [Nat.pow_add, Nat.pow_mul]
  unfold PX Radix.slot
  rw [hpow, Nat.div_div_eq_div_mul]
  rfl

theorem PX_lt (level va : Nat) : PX level va < sv39.fanout :=
  Nat.mod_lt _ (by decide)

theorem walkLoop_false (level : Nat) (m : Kmem) (pagetable : Page) (va : Nat) :
    walkLoop false level m pagetable va =
      (m, sv39.locate m.entry level pagetable (va / PGSIZE)) := by
  induction level generalizing pagetable with
  | zero =>
    simp only [walkLoop, Radix.locate, PX_eq_slot]
  | succ level ih =>
    simp only [walkLoop, Radix.locate, PX_eq_slot]
    by_cases hv : (m.entry pagetable (sv39.slot (level + 1) (va / PGSIZE))).v = true
    · rw [if_pos hv, next_of_valid hv]
      exact ih _
    · rw [if_neg hv, next_of_invalid (by simpa using hv)]
      rfl

theorem walk_false {pagetable : Page} {va : Nat} (hva : va < MAXVA) :
    walk m pagetable va false =
      .ok (m, sv39.locate m.entry 2 pagetable (va / PGSIZE)) := by
  unfold walk
  rw [if_neg (Nat.not_le.mpr hva), walkLoop_false]

/-!
## Adding a table
-/

structure Extends (m m' : Kmem) (n : Nat) (r : Page) : Prop where
  conserve : Conserve m m' (sv39.uses m.entry n r) (sv39.uses m'.entry n r)
  inner : sv39.Inner Pointer m'.entry n r
  leaf_eq : forall v, sv39.leaf Pte.zero m'.entry n r v = sv39.leaf Pte.zero m.entry n r v
  free_le : m'.free.length <= m.free.length

theorem Extends.refl (h : sv39.Inner Pointer m.entry n r) :
    Extends m m n r :=
  { conserve := Conserve.refl _ _
    inner := h
    leaf_eq := fun _ => rfl
    free_le := Nat.le_refl _ }

theorem Extends.trans {m'' : Kmem} (h : Extends m m' n r)
    (h' : Extends m' m'' n r) : Extends m m'' n r :=
  { conserve := h.conserve.trans h'.conserve
    inner := h'.inner
    leaf_eq := fun v => (h'.leaf_eq v).trans (h.leaf_eq v)
    free_le := h'.free_le.trans h.free_le }

theorem Pte.ofBits_zero_mul (c : Nat) : Pte.ofBits (0 * c) = Pte.zero := by
  rw [Nat.zero_mul]
  rfl

theorem memset_zero_blank (m : Kmem) (pg : Page) :
    sv39.Blank Pte.zero (m.memset pg 0).entry pg := by
  intro i _
  simp only [Kmem.memset, Function.update_self]
  exact Pte.ofBits_zero_mul _

section Link

variable {m m1 : Kmem} {r pg : Page} {n j : Nat}

theorem kalloc_fresh (hle : forall q, sv39.uses m.entry n r q + m.free.count q <= 1)
    (halloc : kalloc m = some (pg, m1)) : sv39.uses m.entry n r pg = 0 := by
  have hfree := (kalloc_conserve halloc (fun _ => 0)).right
  have h := hle pg
  rw [hfree, count_cons_one, one_self] at h
  omega

theorem linked_entry (halloc : kalloc m = some (pg, m1)) (hr : r ≠ pg) {p : Page}
    (hp : p ≠ pg) (i : Nat) (hi : p = r -> i ≠ j) :
    ((m1.memset pg 0).set r j (Pte.link pg)).entry p i = m.entry p i := by
  have hm1 : m1.entry p = m.entry p := by
    unfold kalloc at halloc
    cases hfree : m.free with
    | nil =>
      rw [hfree] at halloc
      cases halloc
    | cons q rest =>
      rw [hfree] at halloc
      cases halloc
      simp [Kmem.memset, hp]
  have hset : (m1.memset pg 0).entry p = m1.entry p := by
    simp [Kmem.memset, hp]
  by_cases hpr : p = r
  · subst hpr
    simp only [Kmem.set]
    rw [Radix.set_of_index_ne _ _ _ (hi rfl), hset, hm1]
  · simp only [Kmem.set]
    rw [Radix.set_of_ne _ _ _ hpr, hset, hm1]

theorem linked_blank (m1 : Kmem) (j : Nat) (hr : r ≠ pg) :
    sv39.Blank Pte.zero ((m1.memset pg 0).set r j (Pte.link pg)).entry pg := by
  intro i hi
  simp only [Kmem.set]
  rw [Radix.set_of_ne _ _ _ (Ne.symm hr)]
  exact memset_zero_blank m1 pg i hi

theorem extends_link (hinner : sv39.Inner Pointer m.entry (n + 1) r)
    (hle : forall q, sv39.uses m.entry (n + 1) r q + m.free.count q <= 1)
    (hj : j < sv39.fanout) (hv : (m.entry r j).v = false) (halloc : kalloc m = some (pg, m1)) :
    Extends m ((m1.memset pg 0).set r j (Pte.link pg)) (n + 1) r := by
  have hfresh := kalloc_fresh hle halloc
  have hself := sv39.uses_self m.entry (n + 1) r
  have hr : r ≠ pg := by
    intro heq
    subst heq
    omega
  have hrep : sv39.Replaces m.entry ((m1.memset pg 0).set r j (Pte.link pg)).entry n r j := by
    constructor
    · intro i _ hij
      exact linked_entry halloc hr hr i (fun _ => hij)
    · intro i hi hij p hp q hq k _
      have hadd := sv39.below_le m.entry n r hi q
      rw [sv39.below_of_next hp] at hadd
      have hqpg : q ≠ pg := by
        intro heq
        subst heq
        omega
      have hqr : q ≠ r := by
        intro heq
        subst heq
        have hsplit := sv39.uses_split m.entry n q q hi
        rw [if_pos rfl, sv39.below_of_next hp] at hsplit
        have hone := hle q
        omega
      exact linked_entry halloc hr hqpg k (fun heq => absurd heq hqr)
  have hlink : ((m1.memset pg 0).set r j (Pte.link pg)).entry r j = Pte.link pg :=
    Radix.set_self _ _ _ _
  have hnext : sv39.next (((m1.memset pg 0).set r j (Pte.link pg)).entry r j) = some pg := by
    rw [hlink]
    rfl
  have hblank := linked_blank m1 j hr
  have huses : forall q, sv39.uses ((m1.memset pg 0).set r j (Pte.link pg)).entry (n + 1) r q =
      sv39.uses m.entry (n + 1) r q + one pg q := by
    intro q
    have hadd := hrep.uses_add sv39 hj q
    rw [sv39.below_of_none (next_of_invalid hv), sv39.below_of_next hnext,
      sv39.uses_blank next_zero hblank, Nat.add_zero] at hadd
    exact hadd
  constructor
  · have hkalloc := (kalloc_conserve halloc (sv39.uses m.entry (n + 1) r)).left
    have hmemset : Conserve m1 (m1.memset pg 0) _ _ :=
      Conserve.memset (X := fun q => sv39.uses m.entry (n + 1) r q + one pg q)
        (by simp only [one_self]; omega) 0
    have hset : Conserve (m1.memset pg 0) _ _ _ :=
      Conserve.set (X := fun q => sv39.uses m.entry (n + 1) r q + one pg q)
        (show sv39.uses m.entry (n + 1) r r + one pg r ≠ 0 by omega) j (Pte.link pg)
    exact (hkalloc.trans (hmemset.trans hset)).congr (fun _ => rfl) huses
  · apply hrep.inner sv39 hinner
    intro p hp
    rw [hnext] at hp
    cases hp
    rw [hlink]
    exact ⟨⟨rfl, rfl, rfl⟩, sv39.inner_blank next_zero hblank n⟩
  · intro v
    by_cases hslot : sv39.slot (n + 1) v = j
    · subst hslot
      rw [sv39.leaf_of_none (next_of_invalid hv), sv39.leaf_of_next hnext]
      exact sv39.leaf_blank next_zero hblank n v
    · exact hrep.leaf_eq sv39 hslot
  · rw [(kalloc_conserve halloc (fun _ => 0)).right]
    exact Nat.le_succ _

end Link

theorem extends_child {j : Nat} (hinner : sv39.Inner Pointer m.entry (n + 1) r)
    (hle : forall q, sv39.uses m.entry (n + 1) r q + m.free.count q <= 1)
    (hj : j < sv39.fanout) (hv : (m.entry r j).v = true) (hext : Extends m m' n (m.entry r j).ppn) :
    Extends m m' (n + 1) r ∧ m'.entry r j = m.entry r j := by
  have hnext := next_of_valid hv
  have hbelow := sv39.below_of_next (n := n) hnext
  have hsub : forall q, sv39.uses m.entry n (m.entry r j).ppn q <=
      sv39.uses m.entry (n + 1) r q := by
    intro q
    rw [← hbelow q]
    exact sv39.below_le m.entry n r hj q
  rcases sv39.replaces_of_child m'.entry
    (fun q => (Nat.le_add_right _ _).trans (hle q)) hj hnext (by
      intro q hq hzero i _
      have hone := hle q
      rw [hext.conserve.frame q (by omega)]) with ⟨hrep, hr⟩
  have hnext' : sv39.next (m'.entry r j) = some (m.entry r j).ppn := by
    rw [hr j hj]
    exact hnext
  refine ⟨?_, hr j hj⟩
  constructor
  · constructor
    · exact hext.conserve.kend_eq
    · intro q
      have hadd := hrep.uses_add sv39 hj q
      rw [hbelow q, sv39.below_of_next hnext' q] at hadd
      have htotal := hext.conserve.total q
      omega
    · intro p hp
      apply hext.conserve.frame p
      have hle' := hsub p
      omega
  · apply hrep.inner sv39 hinner
    intro p hp
    rw [hnext'] at hp
    cases hp
    rw [hr j hj]
    exact ⟨(hinner j hj _ hnext).left, hext.inner⟩
  · intro v
    by_cases hslot : sv39.slot (n + 1) v = j
    · subst hslot
      rw [sv39.leaf_of_next hnext, sv39.leaf_of_next hnext']
      exact hext.leaf_eq v
    · exact hrep.leaf_eq sv39 hslot
  · exact hext.free_le

theorem walkLoop_true {level : Nat} {va : Nat}
    {loc : Option (Page × Nat)} (hinner : sv39.Inner Pointer m.entry level r)
    (hle : forall q, sv39.uses m.entry level r q + m.free.count q <= 1)
    (hwalk : walkLoop true level m r va = (m', loc)) :
    Extends m m' level r ∧
      (forall x, loc = some x -> sv39.locate m'.entry level r (va / PGSIZE) = some x) ∧
      (loc = none -> m'.free = []) := by
  induction level generalizing m r with
  | zero =>
    simp only [walkLoop, PX_eq_slot] at hwalk
    cases hwalk
    exact ⟨Extends.refl hinner, fun x hx => hx, fun h => by cases h⟩
  | succ n ih =>
    simp only [walkLoop] at hwalk
    have hj := PX_lt (n + 1) va
    have hdescend : forall m2 : Kmem, Extends m m2 (n + 1) r ->
        (m2.entry r (PX (n + 1) va)).v = true ->
        walkLoop true n m2 (m2.entry r (PX (n + 1) va)).ppn va = (m', loc) ->
        Extends m m' (n + 1) r ∧
          (forall x, loc = some x ->
            sv39.locate m'.entry (n + 1) r (va / PGSIZE) = some x) ∧
          (loc = none -> m'.free = []) := by
      intro m2 hext hv hrun
      have hle2 : forall q, sv39.uses m2.entry (n + 1) r q + m2.free.count q <= 1 := by
        intro q
        rw [hext.conserve.total q]
        exact hle q
      have hnext := next_of_valid hv
      have hlec : forall q, sv39.uses m2.entry n (m2.entry r (PX (n + 1) va)).ppn q +
          m2.free.count q <= 1 := by
        intro q
        have hsub := sv39.below_le m2.entry n r hj q
        rw [sv39.below_of_next hnext] at hsub
        have hone := hle2 q
        omega
      rcases ih (hext.inner _ hj _ hnext).right hlec hrun with ⟨hchild, hloc, hnone⟩
      rcases extends_child hext.inner hle2 hj hv hchild with ⟨hext', hentry⟩
      refine ⟨hext.trans hext', ?_, hnone⟩
      intro x hx
      rw [sv39.locate_of_next (by rw [← PX_eq_slot, hentry]; exact hnext)]
      exact hloc x hx
    by_cases hv : (m.entry r (PX (n + 1) va)).v = true
    · rw [if_pos hv] at hwalk
      exact hdescend m (Extends.refl hinner) hv hwalk
    · rw [if_neg hv] at hwalk
      cases halloc : kalloc m with
      | none =>
        simp only [halloc, Bool.not_true, Bool.false_eq_true, if_false] at hwalk
        cases hwalk
        exact ⟨Extends.refl hinner, fun x hx => (by cases hx),
          fun _ => kalloc_eq_none.mp halloc⟩
      | some res =>
        rcases res with ⟨pg, m1⟩
        simp only [halloc, Bool.not_true, Bool.false_eq_true, if_false] at hwalk
        have hlink : ((m1.memset pg 0).set r (PX (n + 1) va) (Pte.link pg)).entry r
            (PX (n + 1) va) = Pte.link pg := Radix.set_self _ _ _ _
        apply hdescend _ (extends_link hinner hle hj (by simpa using hv) halloc)
        · rw [hlink]
          rfl
        · rw [hlink]
          exact hwalk

/-!
## `freewalk`

The loop frees the tables below one entry after the other.  What is left to free
shrinks by one subtree each turn, and no turn touches the subtrees still to come.
-/

def Bare (m : Kmem) (n : Nat) (r : Page) : Prop :=
  forall v, v < sv39.fanout ^ (n + 1) -> (sv39.leaf Pte.zero m.entry n r v).v = false

theorem Bare.child {j : Nat} {c : Page} (h : Bare m (n + 1) r)
    (hj : j < sv39.fanout) (hc : sv39.next (m.entry r j) = some c) : Bare m n c := by
  intro w hw
  rw [sv39.leaf_child hj hc hw]
  apply h
  calc
    j * sv39.fanout ^ (n + 1) + w < j * sv39.fanout ^ (n + 1) + sv39.fanout ^ (n + 1) :=
      Nat.add_lt_add_left hw _
    _ = (j + 1) * sv39.fanout ^ (n + 1) := (Nat.succ_mul _ _).symm
    _ <= sv39.fanout * sv39.fanout ^ (n + 1) := Nat.mul_le_mul_right _ hj
    _ = sv39.fanout ^ (n + 1 + 1) := (Nat.pow_succ').symm

def belowAll (m : Kmem) (n : Nat) (r : Page) (is : List Nat) (q : Page) : Nat :=
  (is.map (fun i => sv39.below m.entry n r i q)).sum

theorem uses_eq_belowAll (m : Kmem) (n : Nat) (r q : Page) :
    sv39.uses m.entry (n + 1) r q = one r q + belowAll m n r (List.range 512) q := by
  rw [sv39.uses_succ]
  rfl

structure Frees (m : Kmem) (n : Nat) (r : Page) (is : List Nat) : Prop where
  nodup : is.Nodup
  lt : forall i, i ∈ is -> i < sv39.fanout
  child : forall i, i ∈ is -> forall c, sv39.next (m.entry r i) = some c ->
    Pointer (m.entry r i) ∧ sv39.Inner Pointer m.entry n c ∧ Bare m n c

def freewalkBody (depth : Nat) (pagetable : Page) (m : Kmem) (i : Nat) :
    Except Panic Kmem :=
  let pte := m.entry pagetable i
  if pte.v && !pte.r && !pte.w && !pte.x then do
    let m ← freewalk depth m pte.ppn
    return m.set pagetable i Pte.zero
  else if pte.v then
    throw .freewalkLeaf
  else
    return m

theorem freewalk_succ (depth : Nat) (m : Kmem) (pagetable : Page) :
    freewalk (depth + 1) m pagetable =
      (do
        let m ← (List.range 512).foldlM (freewalkBody depth pagetable) m
        kfree m pagetable) :=
  rfl

theorem freewalkBody_invalid (h : (m.entry r i).v = false) : freewalkBody depth r m i = .ok m := by
  simp only [freewalkBody, h]
  rfl

theorem freewalkBody_pointer (hv : (m.entry r i).v = true) (hptr : Pointer (m.entry r i))
    (hfree : freewalk depth m (m.entry r i).ppn = .ok m') :
    freewalkBody depth r m i = .ok (m'.set r i Pte.zero) := by
  rcases hptr with ⟨hr, hw, hx⟩
  simp only [freewalkBody, hv, hr, hw, hx, hfree]
  rfl

theorem belowAll_cons (m : Kmem) (n : Nat) (r : Page) (i : Nat) (is : List Nat) (q : Page) :
    belowAll m n r (i :: is) q = sv39.below m.entry n r i q + belowAll m n r is q := by
  simp [belowAll]

theorem below_le_belowAll
    (hi : i ∈ is) (q : Page) : sv39.below m.entry n r i q <= belowAll m n r is q := by
  induction is with
  | nil => cases hi
  | cons k is ih =>
    rw [belowAll_cons]
    rcases List.mem_cons.mp hi with rfl | hmem
    · omega
    · have hle := ih hmem
      omega

theorem belowAll_congr (hentry : forall i, i ∈ is -> m'.entry r i = m.entry r i)
    (hagree : forall i, i ∈ is -> forall c, sv39.next (m.entry r i) = some c ->
      sv39.Agree m.entry m'.entry n c) (q : Page) :
    belowAll m' n r is q = belowAll m n r is q := by
  unfold belowAll
  congr 1
  apply List.map_congr_left
  intro i hi
  cases hnext : sv39.next (m.entry r i) with
  | none =>
    rw [sv39.below_of_none hnext, sv39.below_of_none (by rw [hentry i hi]; exact hnext)]
  | some c =>
    rw [sv39.below_of_next hnext, sv39.below_of_next (by rw [hentry i hi]; exact hnext)]
    exact sv39.uses_congr (hagree i hi c hnext) q

theorem Frees.congr (h : Frees m n r is) (hentry : forall i, i ∈ is -> m'.entry r i = m.entry r i)
    (hagree : forall i, i ∈ is -> forall c, sv39.next (m.entry r i) = some c ->
      sv39.Agree m.entry m'.entry n c) : Frees m' n r is := by
  refine { nodup := h.nodup, lt := h.lt, child := ?_ }
  intro i hi c hc
  rw [hentry i hi] at hc ⊢
  rcases h.child i hi c hc with ⟨hptr, hinner, hbare⟩
  have hc' := hagree i hi c hc
  refine ⟨hptr, sv39.inner_congr hc' hinner, ?_⟩
  intro v hv
  rw [sv39.leaf_congr hc']
  exact hbare v hv

theorem freewalk_turn {m1 : Kmem}
    (hnotmem : i ∉ is) (hgood : Good m (fun q => one r q + belowAll m n r (i :: is) q))
    (hv : (m.entry r i).v = true)
    (hcons : Conserve m m1 (sv39.uses m.entry n (m.entry r i).ppn) (fun _ => 0)) :
    (forall k, k ∈ is -> (m1.set r i Pte.zero).entry r k = m.entry r k) ∧
      (forall k, k ∈ is -> forall c, sv39.next (m.entry r k) = some c ->
        sv39.Agree m.entry (m1.set r i Pte.zero).entry n c) ∧
      Conserve m (m1.set r i Pte.zero) (fun q => one r q + belowAll m n r (i :: is) q)
        (fun q => one r q + belowAll (m1.set r i Pte.zero) n r is q) := by
  have hbelow : forall q, belowAll m n r (i :: is) q =
      sv39.uses m.entry n (m.entry r i).ppn q + belowAll m n r is q := by
    intro q
    rw [belowAll_cons, sv39.below_of_next (next_of_valid hv)]
  have hone : forall q, one r q + (sv39.uses m.entry n (m.entry r i).ppn q +
      belowAll m n r is q) + m.free.count q <= 1 := by
    intro q
    rw [← hbelow q]
    exact hgood.le_one q
  have hsame : forall q, one r q + belowAll m n r is q ≠ 0 -> m1.entry q = m.entry q := by
    intro q hq
    apply hcons.frame q
    have hle := hone q
    omega
  have hentry : forall k, k ∈ is -> (m1.set r i Pte.zero).entry r k = m.entry r k := by
    intro k hk
    have hki : k ≠ i := fun heq => hnotmem (heq ▸ hk)
    have hrow := hsame r (by rw [one_self]; omega)
    simp only [Kmem.set]
    rw [Radix.set_of_index_ne _ _ _ hki, hrow]
  have hagree : forall k, k ∈ is -> forall c, sv39.next (m.entry r k) = some c ->
      sv39.Agree m.entry (m1.set r i Pte.zero).entry n c := by
    intro k hk c hc q hq j _
    have hle := below_le_belowAll (m := m) (n := n) (r := r) hk q
    have hq1 := hone q
    rw [sv39.below_of_next hc] at hle
    have hqr : q ≠ r := by
      intro heq
      subst heq
      rw [one_self] at hq1
      omega
    simp only [Kmem.set]
    rw [Radix.set_of_ne _ _ _ hqr, hsame q (by omega)]
  refine ⟨hentry, hagree, ?_⟩
  have hset := Conserve.set (m := m1)
    (X := fun q => 0 + (one r q + belowAll m n r is q))
    (show 0 + (one r r + belowAll m n r is r) ≠ 0 by rw [one_self]; omega)
    i Pte.zero
  apply ((hcons.add (fun q => one r q + belowAll m n r is q)).trans hset).congr
  · intro q
    rw [hbelow q]
    omega
  · intro q
    rw [belowAll_congr hentry hagree q]
    omega

theorem freewalk_loop
    (hsub : forall (m : Kmem) (c : Page), sv39.Inner Pointer m.entry n c -> Bare m n c ->
      Good m (sv39.uses m.entry n c) ->
      exists m', freewalk (n + 1) m c = .ok m' ∧
        Conserve m m' (sv39.uses m.entry n c) (fun _ => 0)) (h : Frees m n r is)
    (hgood : Good m (fun q => one r q + belowAll m n r is q)) :
    exists m', is.foldlM (freewalkBody (n + 1) r) m = .ok m' ∧
      Conserve m m' (fun q => one r q + belowAll m n r is q) (one r) := by
  induction is generalizing m with
  | nil => exact ⟨m, rfl, Conserve.refl m _⟩
  | cons i is ih =>
    have hnotmem : i ∉ is := (List.nodup_cons.mp h.nodup).left
    have htail : Frees m n r is :=
      { nodup := (List.nodup_cons.mp h.nodup).right
        lt := fun k hk => h.lt k (List.mem_cons_of_mem i hk)
        child := fun k hk => h.child k (List.mem_cons_of_mem i hk) }
    rw [List.foldlM_cons]
    cases hv : (m.entry r i).v with
    | false =>
      have hbelow : forall q, belowAll m n r (i :: is) q = belowAll m n r is q := by
        intro q
        rw [belowAll_cons, sv39.below_of_none (next_of_invalid hv), Nat.zero_add]
      simp only [hbelow] at hgood ⊢
      rw [freewalkBody_invalid hv]
      exact ih htail hgood
    | true =>
      have hnext := next_of_valid hv
      rcases h.child i List.mem_cons_self _ hnext with ⟨hptr, hinner, hbare⟩
      rcases hsub m _ hinner hbare (hgood.mono (fun q => by
        rw [belowAll_cons, sv39.below_of_next hnext]
        omega)) with ⟨m1, hfree, hcons⟩
      rcases freewalk_turn hnotmem hgood hv hcons with ⟨hentry, hagree, hstep⟩
      rcases ih (htail.congr hentry hagree) (hgood.conserve hstep) with ⟨m', hrun, hcons'⟩
      refine ⟨m', ?_, hstep.trans hcons'⟩
      rw [freewalkBody_pointer hv hptr hfree]
      exact hrun

theorem freewalk_spec (hinner : sv39.Inner Pointer m.entry n r) (hbare : Bare m n r)
    (hgood : Good m (sv39.uses m.entry n r)) :
    exists m', freewalk (n + 1) m r = .ok m' ∧
      Conserve m m' (sv39.uses m.entry n r) (fun _ => 0) := by
  induction n generalizing m r with
  | zero =>
    have hloop : forall is : List Nat, (forall i, i ∈ is -> i < sv39.fanout) ->
        is.foldlM (freewalkBody 0 r) m = .ok m := by
      intro is
      induction is with
      | nil => exact fun _ => rfl
      | cons i is ih =>
        intro hlt
        have hi := hlt i List.mem_cons_self
        have hv := hbare i (by simpa using hi)
        have hslot : sv39.slot 0 i = i := by
          unfold Radix.slot
          rw [Nat.pow_zero, Nat.div_one, Nat.mod_eq_of_lt hi]
        simp only [Radix.leaf, Radix.locate, hslot] at hv
        rw [List.foldlM_cons, freewalkBody_invalid hv]
        exact ih (fun k hk => hlt k (List.mem_cons_of_mem i hk))
    have huses : forall q, sv39.uses m.entry 0 r q = 0 + one r q := fun q =>
      (Nat.zero_add _).symm
    rcases kfree_conserve (X := fun _ => 0) (hgood.mono (fun q => Nat.le_of_eq (huses q).symm))
      with ⟨m', hfree, hcons⟩
    refine ⟨m', ?_, hcons.congr huses (fun _ => rfl)⟩
    rw [freewalk_succ, hloop (List.range 512) (fun i hi => List.mem_range.mp hi)]
    exact hfree
  | succ n ih =>
    have huses : forall q, sv39.uses m.entry (n + 1) r q =
        one r q + belowAll m n r (List.range 512) q := uses_eq_belowAll m n r
    have hfrees : Frees m n r (List.range 512) :=
      { nodup := List.nodup_range
        lt := fun i hi => List.mem_range.mp hi
        child := by
          intro i hi c hc
          have hlt : i < sv39.fanout := List.mem_range.mp hi
          exact ⟨(hinner i hlt c hc).left, (hinner i hlt c hc).right, hbare.child hlt hc⟩ }
    rcases freewalk_loop (fun m c => ih) hfrees
      (hgood.mono (fun q => Nat.le_of_eq (huses q).symm)) with ⟨m1, hrun, hcons⟩
    have hgood1 : Good m1 (fun q => 0 + one r q) :=
      ((hgood.mono (fun q => Nat.le_of_eq (huses q).symm)).conserve hcons).mono
        (fun q => Nat.le_of_eq (Nat.zero_add _))
    rcases kfree_conserve (X := fun _ => 0) hgood1 with ⟨m', hfree, hcons'⟩
    refine ⟨m', ?_, ?_⟩
    · rw [freewalk_succ, hrun]
      exact hfree
    · have hlast : Conserve m1 m' (one r) (fun _ => 0) :=
        hcons'.congr (fun q => (Nat.zero_add _).symm) (fun _ => rfl)
      exact (hcons.trans hlast).congr huses (fun _ => rfl)

theorem freewalk_conserve (hinner : sv39.Inner Pointer m.entry n r) (hbare : Bare m n r)
    (hgood : Good m (sv39.uses m.entry n r)) (hrun : freewalk (n + 1) m r = .ok m') :
    Conserve m m' (sv39.uses m.entry n r) (fun _ => 0) := by
  rcases freewalk_spec hinner hbare hgood with ⟨m1, hrun', hcons⟩
  rw [hrun] at hrun'
  cases hrun'
  exact hcons

/-!
A `freewalk` that returns has met no leaf.
-/

theorem freewalkBody_ok (hrun : freewalkBody depth r m i = .ok m') :
    (m.entry r i).v = false ∧ m' = m ∨
      (m.entry r i).v = true ∧ exists m1, freewalk depth m (m.entry r i).ppn = .ok m1 ∧
        m' = m1.set r i Pte.zero := by
  unfold freewalkBody at hrun
  dsimp only at hrun
  cases hv : (m.entry r i).v with
  | false =>
    rw [hv] at hrun
    cases hrun
    exact .inl ⟨rfl, rfl⟩
  | true =>
    rw [hv] at hrun
    split at hrun
    · rcases bind_eq_ok.mp hrun with ⟨m1, hfree, hrun⟩
      cases hrun
      exact .inr ⟨rfl, m1, hfree, rfl⟩
    · cases hrun

theorem freewalk_loop_leaves
    (hsub : forall (m m' : Kmem) (c : Page), sv39.Inner Pointer m.entry n c ->
      Good m (sv39.uses m.entry n c) -> freewalk (n + 1) m c = .ok m' ->
      (forall v, (sv39.leaf Pte.zero m.entry n c v).v = false) ∧
        Conserve m m' (sv39.uses m.entry n c) (fun _ => 0)) (hnodup : is.Nodup)
    (hinner : forall i, i ∈ is -> forall c, sv39.next (m.entry r i) = some c ->
      sv39.Inner Pointer m.entry n c) (hgood : Good m (fun q => one r q + belowAll m n r is q))
    (hrun : is.foldlM (freewalkBody (n + 1) r) m = .ok m') :
    forall i, i ∈ is -> forall c, sv39.next (m.entry r i) = some c ->
      forall v, (sv39.leaf Pte.zero m.entry n c v).v = false := by
  induction is generalizing m with
  | nil =>
    intro i hi
    cases hi
  | cons k is ih =>
    rcases List.nodup_cons.mp hnodup with ⟨hnotmem, htail⟩
    rw [List.foldlM_cons] at hrun
    rcases bind_eq_ok.mp hrun with ⟨m1, hturn, hloop⟩
    intro i hi c hc v
    rcases freewalkBody_ok hturn with ⟨hv, rfl⟩ | ⟨hv, m2, hfree, rfl⟩
    · rcases List.mem_cons.mp hi with rfl | hmem
      · rw [next_of_invalid hv] at hc
        cases hc
      · refine ih htail (fun j hj => hinner j (List.mem_cons_of_mem k hj)) ?_ hloop i hmem c hc v
        refine hgood.mono fun q => ?_
        rw [belowAll_cons]
        omega
    · have hnext := next_of_valid hv
      rcases hsub m m2 _ (hinner k List.mem_cons_self _ hnext) (hgood.mono (fun q => by
        rw [belowAll_cons, sv39.below_of_next hnext]
        omega)) hfree with ⟨hleaf, hcons⟩
      rcases List.mem_cons.mp hi with rfl | hmem
      · rw [hnext] at hc
        cases hc
        exact hleaf v
      · rcases freewalk_turn hnotmem hgood hv hcons with ⟨hentry, hagree, hstep⟩
        have hrest := ih htail (fun j hj c' hc' => by
            rw [hentry j hj] at hc'
            exact sv39.inner_congr (hagree j hj c' hc')
              (hinner j (List.mem_cons_of_mem k hj) c' hc'))
          (hgood.conserve hstep) hloop i hmem c (by rw [hentry i hmem]; exact hc) v
        rw [sv39.leaf_congr (hagree i hmem c hc)] at hrest
        exact hrest

theorem freewalk_leaves
    (hinner : sv39.Inner Pointer m.entry n r) (hgood : Good m (sv39.uses m.entry n r))
    (hrun : freewalk (n + 1) m r = .ok m') :
    (forall v, (sv39.leaf Pte.zero m.entry n r v).v = false) ∧
      Conserve m m' (sv39.uses m.entry n r) (fun _ => 0) := by
  have hclear : forall v, (sv39.leaf Pte.zero m.entry n r v).v = false := by
    induction n generalizing m m' r with
    | zero =>
      have hall : forall (is : List Nat) (m1 : Kmem), is.foldlM (freewalkBody 0 r) m = .ok m1 ->
          forall i, i ∈ is -> (m.entry r i).v = false := by
        intro is m1
        induction is with
        | nil =>
          intro _ i hi
          cases hi
        | cons k is ih =>
          intro hfold
          rw [List.foldlM_cons] at hfold
          rcases bind_eq_ok.mp hfold with ⟨m2, hturn, hloop⟩
          rcases freewalkBody_ok hturn with ⟨hv, rfl⟩ | ⟨_, m3, hfree, _⟩
          · intro i hi
            rcases List.mem_cons.mp hi with rfl | hmem
            · exact hv
            · exact ih hloop i hmem
          · cases hfree
      rw [freewalk_succ] at hrun
      rcases bind_eq_ok.mp hrun with ⟨m1, hloop, _⟩
      intro v
      exact hall _ m1 hloop _ (List.mem_range.mpr (sv39.slot_lt 0 v))
    | succ n ih =>
      rw [freewalk_succ] at hrun
      rcases bind_eq_ok.mp hrun with ⟨m1, hloop, _⟩
      have hsub : forall (m m' : Kmem) (c : Page), sv39.Inner Pointer m.entry n c ->
          Good m (sv39.uses m.entry n c) -> freewalk (n + 1) m c = .ok m' ->
          (forall v, (sv39.leaf Pte.zero m.entry n c v).v = false) ∧
            Conserve m m' (sv39.uses m.entry n c) (fun _ => 0) := by
        intro m m' c hinner hgood hrun
        have hleaf := ih hinner hgood hrun
        exact ⟨hleaf, freewalk_conserve hinner (fun v _ => hleaf v) hgood hrun⟩
      have hbelow := freewalk_loop_leaves hsub List.nodup_range
        (fun i hi c hc => (hinner i (List.mem_range.mp hi) c hc).2)
        (hgood.mono fun q => Nat.le_of_eq (uses_eq_belowAll m n r q).symm) hloop
      intro v
      cases hnext : sv39.next (m.entry r (sv39.slot (n + 1) v)) with
      | none =>
        rw [sv39.leaf_of_none hnext]
        rfl
      | some c =>
        rw [sv39.leaf_of_next hnext]
        exact hbelow _ (List.mem_range.mpr (sv39.slot_lt (n + 1) v)) c hnext v
  exact ⟨hclear, freewalk_conserve hinner (fun v _ => hclear v) hgood hrun⟩

end Vm
end Xv6
