import Mathlib.Algebra.BigOperators.Group.Finset.Basic
import Mathlib.Algebra.Order.BigOperators.Group.Finset

/-!
# Radix tables in memory

A table is a page of entries; the entries of an inner table point to tables of
the level below.  `uses` counts how often a page occurs among the pages of a
table, so a table whose pages are distinct has `uses <= 1`.
-/

namespace Xv6
namespace Lib

variable {i j n v w : Nat}

/-- How entries are laid out: the number of entries of a page, and the page that a
valid entry of an inner table points to. -/
structure Radix (page entry : Type) where
  fanout : Nat
  pos : 0 < fanout
  next : entry -> Option page

namespace Radix

variable {page entry : Type} [DecidableEq page] (F : Radix page entry)

def slot (n v : Nat) : Nat :=
  v / F.fanout ^ n % F.fanout

def uses (mem : page -> Nat -> entry) : Nat -> page -> page -> Nat
  | 0, r, q => if r = q then 1 else 0
  | n + 1, r, q =>
    (if r = q then 1 else 0) + ∑ i ∈ Finset.range F.fanout,
      match F.next (mem r i) with
      | none => 0
      | some p => uses mem n p q

def below (mem : page -> Nat -> entry) (n : Nat) (r : page) (i : Nat) (q : page) : Nat :=
  match F.next (mem r i) with
  | none => 0
  | some p => F.uses mem n p q

def locate (mem : page -> Nat -> entry) : Nat -> page -> Nat -> Option (page × Nat)
  | 0, r, v => some (r, F.slot 0 v)
  | n + 1, r, v =>
    match F.next (mem r (F.slot (n + 1) v)) with
    | none => none
    | some p => locate mem n p v

def leaf (zero : entry) (mem : page -> Nat -> entry) (n : Nat) (r : page) (v : Nat) :
    entry :=
  match F.locate mem n r v with
  | none => zero
  | some (p, i) => mem p i

def Inner (P : entry -> Prop) (mem : page -> Nat -> entry) : Nat -> page -> Prop
  | 0, _ => True
  | n + 1, r => forall i, i < F.fanout -> forall p, F.next (mem r i) = some p ->
      P (mem r i) ∧ Inner P mem n p

variable {mem mem' : page -> Nat -> entry} {r p q : page} {zero : entry} {P : entry -> Prop}

omit [DecidableEq page] in
theorem slot_lt (n v : Nat) : F.slot n v < F.fanout :=
  Nat.mod_lt _ F.pos

theorem uses_succ (mem : page -> Nat -> entry) (n : Nat) (r q : page) :
    F.uses mem (n + 1) r q =
      (if r = q then 1 else 0) + ∑ i ∈ Finset.range F.fanout, F.below mem n r i q :=
  rfl

theorem below_of_next (h : F.next (mem r i) = some p) (q : page) :
    F.below mem n r i q = F.uses mem n p q := by
  unfold below
  rw [h]

theorem below_of_none (h : F.next (mem r i) = none) (q : page) : F.below mem n r i q = 0 := by
  unfold below
  rw [h]

omit [DecidableEq page] in
theorem locate_of_next (h : F.next (mem r (F.slot (n + 1) v)) = some p) :
    F.locate mem (n + 1) r v = F.locate mem n p v := by
  simp only [locate, h]

omit [DecidableEq page] in
theorem leaf_of_next (h : F.next (mem r (F.slot (n + 1) v)) = some p) :
    F.leaf zero mem (n + 1) r v = F.leaf zero mem n p v := by
  simp only [leaf, locate, h]

omit [DecidableEq page] in
theorem leaf_of_none (h : F.next (mem r (F.slot (n + 1) v)) = none) :
    F.leaf zero mem (n + 1) r v = zero := by
  simp only [leaf, locate, h]

theorem uses_self (mem : page -> Nat -> entry) (n : Nat) (r : page) :
    1 <= F.uses mem n r r := by
  cases n with
  | zero => simp [uses]
  | succ n =>
    rw [uses_succ, if_pos rfl]
    omega

theorem uses_split (mem : page -> Nat -> entry) (n : Nat) (r q : page) (hi : i < F.fanout) :
    F.uses mem (n + 1) r q =
      (if r = q then 1 else 0) + F.below mem n r i q +
        ∑ j ∈ (Finset.range F.fanout).erase i, F.below mem n r j q := by
  rw [uses_succ, ← Finset.add_sum_erase _ _ (Finset.mem_range.mpr hi)]
  omega

theorem below_le (mem : page -> Nat -> entry) (n : Nat) (r : page) (hi : i < F.fanout) (q : page) :
    F.below mem n r i q <= F.uses mem (n + 1) r q := by
  rw [F.uses_split mem n r q hi]
  omega

theorem below_add_le (mem : page -> Nat -> entry) (n : Nat) (r : page)
    (hi : i < F.fanout) (hj : j < F.fanout) (hne : j ≠ i) (q : page) :
    (if r = q then 1 else 0) + F.below mem n r i q + F.below mem n r j q <=
      F.uses mem (n + 1) r q := by
  rw [F.uses_split mem n r q hi]
  have hle : F.below mem n r j q <=
      ∑ k ∈ (Finset.range F.fanout).erase i, F.below mem n r k q :=
    Finset.single_le_sum (f := fun k => F.below mem n r k q) (fun _ _ => Nat.zero_le _)
      (Finset.mem_erase.mpr ⟨hne, Finset.mem_range.mpr hj⟩)
  omega

/-!
## Frames

A table depends only on the entries of its own pages.
-/

/-- `mem'` has the entries of `mem` on every page of the table at `r`. -/
def Agree (mem mem' : page -> Nat -> entry) (n : Nat) (r : page) : Prop :=
  forall p, F.uses mem n r p ≠ 0 -> forall i, i < F.fanout -> mem' p i = mem p i

theorem Agree.self (h : F.Agree mem mem' n r) (hi : i < F.fanout) : mem' r i = mem r i := by
  apply h r _ i hi
  have hself := F.uses_self mem n r
  omega

theorem Agree.child (h : F.Agree mem mem' (n + 1) r) (hi : i < F.fanout)
    (hnext : F.next (mem r i) = some p) : F.Agree mem mem' n p := by
  intro q hq
  apply h q
  have hle := F.below_le mem n r hi q
  rw [F.below_of_next hnext] at hle
  omega

theorem uses_congr
    (h : F.Agree mem mem' n r) (q : page) : F.uses mem' n r q = F.uses mem n r q := by
  induction n generalizing r with
  | zero => rfl
  | succ n ih =>
    rw [uses_succ, uses_succ]
    congr 1
    apply Finset.sum_congr rfl
    intro i hi
    have hlt := Finset.mem_range.mp hi
    have hentry := Agree.self F h hlt
    cases hnext : F.next (mem r i) with
    | none =>
      rw [F.below_of_none hnext, F.below_of_none (by rw [hentry]; exact hnext)]
    | some p =>
      rw [F.below_of_next hnext, F.below_of_next (by rw [hentry]; exact hnext)]
      exact ih (Agree.child F h hlt hnext)

theorem locate_congr
    (h : F.Agree mem mem' n r) (v : Nat) : F.locate mem' n r v = F.locate mem n r v := by
  induction n generalizing r with
  | zero => rfl
  | succ n ih =>
    simp only [locate]
    rw [Agree.self F h (F.slot_lt (n + 1) v)]
    cases hnext : F.next (mem r (F.slot (n + 1) v)) with
    | none => rfl
    | some p => exact ih (Agree.child F h (F.slot_lt (n + 1) v) hnext)

theorem locate_uses
    (h : F.locate mem n r v = some (p, i)) : 1 <= F.uses mem n r p ∧ i < F.fanout := by
  induction n generalizing r with
  | zero =>
    simp only [locate, Option.some.injEq, Prod.mk.injEq] at h
    rcases h with ⟨rfl, rfl⟩
    exact ⟨F.uses_self mem 0 r, F.slot_lt 0 v⟩
  | succ n ih =>
    simp only [locate] at h
    cases hnext : F.next (mem r (F.slot (n + 1) v)) with
    | none =>
      rw [hnext] at h
      cases h
    | some c =>
      rw [hnext] at h
      rcases ih h with ⟨huse, hi⟩
      have hle := F.below_le mem n r (F.slot_lt (n + 1) v) p
      rw [F.below_of_next hnext] at hle
      exact ⟨by omega, hi⟩

theorem leaf_congr
    (h : F.Agree mem mem' n r) (v : Nat) : F.leaf zero mem' n r v = F.leaf zero mem n r v := by
  unfold leaf
  rw [F.locate_congr h]
  cases hloc : F.locate mem n r v with
  | none => rfl
  | some x =>
    rcases F.locate_uses hloc with ⟨huse, hi⟩
    exact h x.1 (by omega) x.2 hi

theorem inner_congr (h : F.Agree mem mem' n r) (hinner : F.Inner P mem n r) :
    F.Inner P mem' n r := by
  induction n generalizing r with
  | zero => trivial
  | succ n ih =>
    intro i hi p hnext
    rw [Agree.self F h hi] at hnext ⊢
    exact ⟨(hinner i hi p hnext).left, ih (Agree.child F h hi hnext) (hinner i hi p hnext).right⟩

def missing (mem : page -> Nat -> entry) : Nat -> page -> Nat -> Nat
  | 0, _, _ => 0
  | n + 1, r, v =>
    match F.next (mem r (F.slot (n + 1) v)) with
    | none => n + 1
    | some p => missing mem n p v

omit [DecidableEq page] in
theorem missing_le (mem : page -> Nat -> entry) (n : Nat) (r : page) (v : Nat) :
    F.missing mem n r v <= n := by
  induction n generalizing r with
  | zero => exact Nat.le_refl 0
  | succ n ih =>
    simp only [missing]
    split
    · exact Nat.le_refl _
    · exact (ih _).trans (Nat.le_succ n)

theorem missing_congr
    (h : F.Agree mem mem' n r) (v : Nat) : F.missing mem' n r v = F.missing mem n r v := by
  induction n generalizing r with
  | zero => rfl
  | succ n ih =>
    simp only [missing]
    rw [Agree.self F h (F.slot_lt (n + 1) v)]
    cases hnext : F.next (mem r (F.slot (n + 1) v)) with
    | none => rfl
    | some p => exact ih (Agree.child F h (F.slot_lt (n + 1) v) hnext)

/-!
## Writing one entry
-/

def set (mem : page -> Nat -> entry) (p : page) (i : Nat) (e : entry) :
    page -> Nat -> entry :=
  Function.update mem p (Function.update (mem p) i e)

@[simp]
theorem set_self (mem : page -> Nat -> entry) (p : page) (i : Nat) (e : entry) :
    set mem p i e p i = e := by
  simp [set]

theorem set_of_ne (mem : page -> Nat -> entry) (i : Nat) (e : entry)
    (h : q ≠ p) : set mem p i e q = mem q := by
  simp [set, h]

theorem set_of_index_ne (mem : page -> Nat -> entry) (p : page) (e : entry)
    (h : j ≠ i) : set mem p i e p j = mem p j := by
  simp [set, h]

/-- `mem'` differs from `mem` at most at entry `j` of the table `r` and below it. -/
structure Replaces (mem mem' : page -> Nat -> entry) (n : Nat) (r : page) (j : Nat) :
    Prop where
  entry_eq : forall i, i < F.fanout -> i ≠ j -> mem' r i = mem r i
  agree : forall i, i < F.fanout -> i ≠ j -> forall p, F.next (mem r i) = some p ->
    F.Agree mem mem' n p

theorem Replaces.uses_add (h : F.Replaces mem mem' n r j) (hj : j < F.fanout) (q : page) :
    F.uses mem' (n + 1) r q + F.below mem n r j q =
      F.uses mem (n + 1) r q + F.below mem' n r j q := by
  have hsum : ∑ i ∈ (Finset.range F.fanout).erase j, F.below mem' n r i q =
      ∑ i ∈ (Finset.range F.fanout).erase j, F.below mem n r i q := by
    apply Finset.sum_congr rfl
    intro i hi
    rcases Finset.mem_erase.mp hi with ⟨hne, hmem⟩
    have hlt := Finset.mem_range.mp hmem
    have hentry := h.entry_eq i hlt hne
    cases hnext : F.next (mem r i) with
    | none =>
      rw [F.below_of_none hnext, F.below_of_none (by rw [hentry]; exact hnext)]
    | some p =>
      rw [F.below_of_next hnext, F.below_of_next (by rw [hentry]; exact hnext)]
      exact F.uses_congr (h.agree i hlt hne p hnext) q
  rw [F.uses_split mem' n r q hj, F.uses_split mem n r q hj, hsum]
  omega

theorem Replaces.locate_eq (h : F.Replaces mem mem' n r j) (hv : F.slot (n + 1) v ≠ j) :
    F.locate mem' (n + 1) r v = F.locate mem (n + 1) r v := by
  simp only [locate]
  have hlt := F.slot_lt (n + 1) v
  rw [h.entry_eq _ hlt hv]
  cases hnext : F.next (mem r (F.slot (n + 1) v)) with
  | none => rfl
  | some p => exact F.locate_congr (h.agree _ hlt hv p hnext) v

theorem Replaces.leaf_eq (h : F.Replaces mem mem' n r j) (hv : F.slot (n + 1) v ≠ j) :
    F.leaf zero mem' (n + 1) r v = F.leaf zero mem (n + 1) r v := by
  have hlt := F.slot_lt (n + 1) v
  have hentry := h.entry_eq _ hlt hv
  cases hnext : F.next (mem r (F.slot (n + 1) v)) with
  | none =>
    rw [F.leaf_of_none hnext, F.leaf_of_none (by rw [hentry]; exact hnext)]
  | some p =>
    rw [F.leaf_of_next hnext, F.leaf_of_next (by rw [hentry]; exact hnext)]
    exact F.leaf_congr (h.agree _ hlt hv p hnext) v

theorem Replaces.inner (h : F.Replaces mem mem' n r j) (hinner : F.Inner P mem (n + 1) r)
    (hj : forall p, F.next (mem' r j) = some p -> P (mem' r j) ∧ F.Inner P mem' n p) :
    F.Inner P mem' (n + 1) r := by
  intro i hi p hnext
  by_cases hij : i = j
  · subst hij
    exact hj p hnext
  · have hentry := h.entry_eq i hi hij
    rw [hentry] at hnext ⊢
    exact ⟨(hinner i hi p hnext).left,
      F.inner_congr (h.agree i hi hij p hnext) (hinner i hi p hnext).right⟩

theorem replaces_of_child (mem' : page -> Nat -> entry)
    {c : page} (hu : forall q, F.uses mem (n + 1) r q <= 1) (hj : j < F.fanout)
    (hc : F.next (mem r j) = some c)
    (hsame : forall q, F.uses mem (n + 1) r q ≠ 0 -> F.uses mem n c q = 0 ->
      forall i, i < F.fanout -> mem' q i = mem q i) :
    F.Replaces mem mem' n r j ∧ forall i, i < F.fanout -> mem' r i = mem r i := by
  have hbelow : forall q, F.below mem n r j q = F.uses mem n c q := F.below_of_next hc
  have hr : forall i, i < F.fanout -> mem' r i = mem r i := by
    have hself := F.uses_self mem (n + 1) r
    apply hsame r (by omega)
    have hsplit := F.uses_split mem n r r hj
    rw [if_pos rfl, hbelow r] at hsplit
    have hle := hu r
    omega
  refine ⟨{ entry_eq := fun i hi _ => hr i hi, agree := ?_ }, hr⟩
  intro i hi hij p hp q hq k hk
  have hadd := F.below_add_le mem n r hj hi hij q
  rw [hbelow q, F.below_of_next hp q] at hadd
  have hle := hu q
  exact hsame q (by omega) (by omega) k hk

/-!
## Pages without entries
-/

def Blank (zero : entry) (mem : page -> Nat -> entry) (p : page) : Prop :=
  forall i, i < F.fanout -> mem p i = zero

section

variable (hzero : F.next zero = none) (h : F.Blank zero mem p)
include hzero h

theorem uses_blank (n : Nat) (q : page) :
    F.uses mem n p q = if p = q then 1 else 0 := by
  cases n with
  | zero => rfl
  | succ n =>
    rw [uses_succ, Finset.sum_eq_zero, Nat.add_zero]
    intro i hi
    apply F.below_of_none
    rw [h i (Finset.mem_range.mp hi)]
    exact hzero

omit [DecidableEq page] in
theorem leaf_blank (n v : Nat) :
    F.leaf zero mem n p v = zero := by
  cases n with
  | zero => exact h _ (F.slot_lt 0 v)
  | succ n =>
    apply F.leaf_of_none
    rw [h _ (F.slot_lt (n + 1) v)]
    exact hzero

omit [DecidableEq page] in
theorem inner_blank (n : Nat) :
    F.Inner P mem n p := by
  cases n with
  | zero => trivial
  | succ n =>
    intro i hi q hnext
    rw [h i hi, hzero] at hnext
    cases hnext

end

/-!
## Writing a bottom entry
-/

theorem locate_set
    (e : entry) (hu : forall q, F.uses mem n r q <= 1) (hloc : F.locate mem n r v = some (p, i)) :
    (forall q, F.uses (set mem p i e) n r q = F.uses mem n r q) ∧
      (forall w, F.locate (set mem p i e) n r w = F.locate mem n r w) ∧
      (forall P : entry -> Prop, F.Inner P mem n r -> F.Inner P (set mem p i e) n r) := by
  induction n generalizing r with
  | zero => exact ⟨fun _ => rfl, fun _ => rfl, fun _ _ => trivial⟩
  | succ n ih =>
    simp only [locate] at hloc
    cases hnext : F.next (mem r (F.slot (n + 1) v)) with
    | none =>
      rw [hnext] at hloc
      cases hloc
    | some c =>
      rw [hnext] at hloc
      have hj := F.slot_lt (n + 1) v
      have hbelow := F.below_of_next (n := n) hnext
      have huc : forall q, F.uses mem n c q <= 1 := by
        intro q
        rw [← hbelow q]
        exact (F.below_le mem n r hj q).trans (hu q)
      have hp := (F.locate_uses hloc).left
      rcases ih huc hloc with ⟨huses, hlocate, hinner⟩
      rcases F.replaces_of_child (set mem p i e) hu hj hnext (by
        intro q _ hq k _
        have hqp : q ≠ p := by
          intro heq
          subst heq
          omega
        rw [set_of_ne mem i e hqp]) with ⟨hrep, hr⟩
      have hnext' : F.next (set mem p i e r (F.slot (n + 1) v)) = some c := by
        rw [hr _ hj]
        exact hnext
      refine ⟨?_, ?_, ?_⟩
      · intro q
        have hadd := hrep.uses_add F hj q
        rw [hbelow q, F.below_of_next hnext' q, huses q] at hadd
        omega
      · intro w
        by_cases hw : F.slot (n + 1) w = F.slot (n + 1) v
        · simp only [locate]
          rw [hw, hnext', hnext]
          exact hlocate w
        · exact hrep.locate_eq F hw
      · intro P hP
        apply hrep.inner F hP
        intro c' hc'
        rw [hnext'] at hc'
        cases hc'
        rw [hr _ hj]
        exact ⟨(hP _ hj c hnext).left, hinner P (hP _ hj c hnext).right⟩

theorem locate_inj {x : page × Nat} (hu : forall q, F.uses mem n r q <= 1)
    (hv : F.locate mem n r v = some x) (hw : F.locate mem n r w = some x) :
    v % F.fanout ^ (n + 1) = w % F.fanout ^ (n + 1) := by
  induction n generalizing r with
  | zero =>
    simp only [locate, slot, Nat.pow_zero, Nat.div_one] at hv hw
    rw [← hw] at hv
    simp only [Option.some.injEq, Prod.mk.injEq, true_and] at hv
    simpa using hv
  | succ n ih =>
    simp only [locate] at hv hw
    cases hcv : F.next (mem r (F.slot (n + 1) v)) with
    | none =>
      rw [hcv] at hv
      cases hv
    | some c =>
      cases hcw : F.next (mem r (F.slot (n + 1) w)) with
      | none =>
        rw [hcw] at hw
        cases hw
      | some d =>
        rw [hcv] at hv
        rw [hcw] at hw
        have hslot : F.slot (n + 1) w = F.slot (n + 1) v := by
          by_contra hne
          have hadd := F.below_add_le mem n r
            (F.slot_lt (n + 1) v) (F.slot_lt (n + 1) w) hne x.1
          rw [F.below_of_next hcv, F.below_of_next hcw] at hadd
          have h1 := (F.locate_uses hv).left
          have h2 := (F.locate_uses hw).left
          have h3 := hu x.1
          omega
        rw [hslot, hcv] at hcw
        cases hcw
        have huc : forall q, F.uses mem n c q <= 1 := by
          intro q
          rw [← F.below_of_next hcv q]
          exact (F.below_le mem n r (F.slot_lt (n + 1) v) q).trans (hu q)
        have hmod := ih huc hv hw
        unfold slot at hslot
        rw [Nat.mod_pow_succ (x := v) (k := n + 1), Nat.mod_pow_succ (x := w) (k := n + 1), hmod,
          hslot]

theorem leaf_set (e : entry) (hu : forall q, F.uses mem n r q <= 1)
    (hloc : F.locate mem n r v = some (p, i)) (hv : v < F.fanout ^ (n + 1))
    (hw : w < F.fanout ^ (n + 1)) :
    F.leaf zero (set mem p i e) n r w = if w = v then e else F.leaf zero mem n r w := by
  have hlocate := (F.locate_set e hu hloc).right.left w
  unfold leaf
  rw [hlocate]
  by_cases hwv : w = v
  · subst hwv
    rw [hloc, if_pos rfl]
    exact set_self mem p i e
  · rw [if_neg hwv]
    cases hlw : F.locate mem n r w with
    | none => rfl
    | some x =>
      by_cases hx : x = (p, i)
      · subst hx
        have hmod := F.locate_inj hu hlw hloc
        rw [Nat.mod_eq_of_lt hw, Nat.mod_eq_of_lt hv] at hmod
        exact absurd hmod hwv
      · rcases x with ⟨q, k⟩
        by_cases hq : q = p
        · subst hq
          have hk : k ≠ i := fun heq => hx (by rw [heq])
          exact set_of_index_ne mem q e hk
        · exact congrFun (set_of_ne mem i e hq) k

/-!
## Paths through one entry of the top table
-/

omit [DecidableEq page] in
theorem locate_of_slots (h : forall l, l <= n -> F.slot l v = F.slot l w) :
    F.locate mem n r v = F.locate mem n r w := by
  induction n generalizing r with
  | zero =>
    simp only [locate]
    rw [h 0 (Nat.le_refl 0)]
  | succ n ih =>
    simp only [locate]
    rw [h (n + 1) (Nat.le_refl _)]
    cases F.next (mem r (F.slot (n + 1) w)) with
    | none => rfl
    | some p => exact ih (fun l hl => h l (Nat.le_succ_of_le hl))

omit [DecidableEq page] in
theorem slot_mul_add {l : Nat} (j w : Nat) (hl : l <= n) :
    F.slot l (j * F.fanout ^ (n + 1) + w) = F.slot l w := by
  have hpow : j * F.fanout ^ (n + 1) = F.fanout ^ l * (F.fanout * (j * F.fanout ^ (n - l))) := by
    have hsplit : n + 1 = l + 1 + (n - l) := by omega
    rw [hsplit, Nat.pow_add, Nat.pow_succ]
    ac_rfl
  unfold slot
  rw [hpow, Nat.mul_add_div (Nat.pow_pos F.pos), Nat.mul_add_mod]

omit [DecidableEq page] in
theorem slot_top (hj : j < F.fanout) (hw : w < F.fanout ^ (n + 1)) :
    F.slot (n + 1) (j * F.fanout ^ (n + 1) + w) = j := by
  unfold slot
  rw [Nat.mul_comm j, Nat.mul_add_div (Nat.pow_pos F.pos), Nat.div_eq_of_lt hw, Nat.add_zero,
    Nat.mod_eq_of_lt hj]

omit [DecidableEq page] in
theorem leaf_child {c : page}
    (hj : j < F.fanout) (hc : F.next (mem r j) = some c) (hw : w < F.fanout ^ (n + 1)) :
    F.leaf zero mem n c w = F.leaf zero mem (n + 1) r (j * F.fanout ^ (n + 1) + w) := by
  rw [F.leaf_of_next (by rw [F.slot_top hj hw]; exact hc)]
  unfold leaf
  rw [F.locate_of_slots (fun l hl => F.slot_mul_add j w hl)]

end Radix
end Lib
end Xv6
