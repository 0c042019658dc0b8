import Mathlib.Algebra.BigOperators.Group.Finset.Basic
import Mathlib.Order.Interval.Finset.Nat
import Mathlib.Algebra.Order.Ring.Nat

/-!
# Blocks of memory

A block is an interval of addresses, given by its start and its length.  Blocks tile a
list of regions when they are disjoint and cover the same addresses.  Two blocks that
touch may be merged, and a block may be split.
-/

namespace Xv6
namespace Lib
namespace Blocks

abbrev Block := Nat × Nat

def Inside (b : Block) (x : Nat) : Prop :=
  b.1 <= x ∧ x < b.1 + b.2

def Apart (b c : Block) : Prop :=
  b.1 + b.2 <= c.1 ∨ c.1 + c.2 <= b.1

def Covered (blocks : List Block) (x : Nat) : Prop :=
  exists b, b ∈ blocks ∧ Inside b x

structure Tiles (regions blocks : List Block) : Prop where
  cover : forall x, Covered regions x <-> Covered blocks x
  apart : blocks.Pairwise Apart
  pos : forall b, b ∈ blocks -> 0 < b.2

/-- The blocks stand in the order of their addresses, and no two of them touch. -/
def Separated (blocks : List Block) : Prop :=
  blocks.Pairwise fun b c => b.1 + b.2 < c.1

def total (regions : List Block) : Nat :=
  (regions.map Prod.snd).sum

theorem Apart.symm {b c : Block} (h : Apart b c) : Apart c b :=
  Or.symm h

theorem covered_cons {c : Block} {blocks : List Block} {x : Nat} :
    Covered (c :: blocks) x <-> Inside c x ∨ Covered blocks x := by
  simp only [Covered, List.mem_cons, or_and_right, exists_or, exists_eq_left]

theorem inside_add {a n m x : Nat} :
    Inside (a, n + m) x <-> Inside (a, n) x ∨ Inside (a + n, m) x := by
  unfold Inside
  omega

section

variable {regions blocks others : List Block} {a n m : Nat}

theorem Tiles.perm (h : Tiles regions blocks) (hperm : blocks.Perm others) :
    Tiles regions others where
  cover := fun x => by
    rw [h.cover x]
    simp only [Covered, hperm.mem_iff]
  apart := (hperm.pairwise_iff Apart.symm).mp h.apart
  pos := fun b hb => h.pos b (hperm.mem_iff.mpr hb)

theorem Tiles.merge (h : Tiles regions ((a, n) :: (a + n, m) :: blocks)) :
    Tiles regions ((a, n + m) :: blocks) := by
  obtain ⟨hfirst, hrest⟩ := List.pairwise_cons.mp h.apart
  obtain ⟨hsecond, hblocks⟩ := List.pairwise_cons.mp hrest
  obtain ⟨hn, hpos⟩ := List.forall_mem_cons.mp h.pos
  obtain ⟨-, hpos⟩ := List.forall_mem_cons.mp hpos
  refine ⟨fun x => ?_, List.pairwise_cons.mpr ⟨fun c hc => ?_, hblocks⟩,
    List.forall_mem_cons.mpr ⟨Nat.add_pos_left hn m, hpos⟩⟩
  · rw [h.cover x, covered_cons, covered_cons, covered_cons, inside_add, or_assoc]
  · have h1 := hfirst c (List.mem_cons_of_mem _ hc)
    have h2 := hsecond c hc
    have hc := hpos c hc
    unfold Apart at h1 h2 ⊢
    omega

theorem Tiles.split (h : Tiles regions ((a, n + m) :: blocks)) (hn : 0 < n) (hm : 0 < m) :
    Tiles regions ((a, n) :: (a + n, m) :: blocks) := by
  obtain ⟨hfirst, hblocks⟩ := List.pairwise_cons.mp h.apart
  obtain ⟨-, hpos⟩ := List.forall_mem_cons.mp h.pos
  refine ⟨fun x => ?_, List.pairwise_cons.mpr ⟨List.forall_mem_cons.mpr
    ⟨Or.inl (Nat.le_refl _), fun c hc => ?_⟩, List.pairwise_cons.mpr ⟨fun c hc => ?_, hblocks⟩⟩,
    List.forall_mem_cons.mpr ⟨hn, List.forall_mem_cons.mpr ⟨hm, hpos⟩⟩⟩
  · rw [h.cover x, covered_cons, covered_cons, covered_cons, inside_add, or_assoc]
  · have hapart := hfirst c hc
    unfold Apart at hapart ⊢
    omega
  · have hapart := hfirst c hc
    unfold Apart at hapart ⊢
    omega

theorem Tiles.extend (h : Tiles regions blocks) (hnew : forall b, b ∈ blocks -> b.1 + b.2 <= a)
    (hn : 0 < n) : Tiles ((a, n) :: regions) ((a, n) :: blocks) where
  cover := fun x => by
    rw [covered_cons, covered_cons, h.cover x]
  apart := List.pairwise_cons.mpr ⟨fun b hb => Or.inr (hnew b hb), h.apart⟩
  pos := List.forall_mem_cons.mpr ⟨hn, h.pos⟩

theorem card_le_total (regions : List Block) (s : Finset Nat)
    (h : forall x, x ∈ s -> Covered regions x) : s.card <= total regions := by
  induction regions generalizing s with
  | nil =>
    have hempty : s = ∅ := Finset.eq_empty_of_forall_notMem fun x hx => by
      obtain ⟨r, hr, -⟩ := h x hx
      exact absurd hr List.not_mem_nil
    rw [hempty]
    exact Nat.zero_le _
  | cons r regions ih =>
    have hin : (s.filter fun x => r.1 <= x ∧ x < r.1 + r.2).card <= r.2 := by
      have hsub : (s.filter fun x => r.1 <= x ∧ x < r.1 + r.2) ⊆ Finset.Ico r.1 (r.1 + r.2) := by
        intro x hx
        exact Finset.mem_Ico.mpr (Finset.mem_filter.mp hx).2
      have hcard := Finset.card_le_card hsub
      rw [Nat.card_Ico, Nat.add_sub_cancel_left] at hcard
      exact hcard
    have hout := ih (s.filter fun x => ¬ (r.1 <= x ∧ x < r.1 + r.2)) fun x hx => by
      obtain ⟨hx, hnot⟩ := Finset.mem_filter.mp hx
      exact (covered_cons.mp (h x hx)).resolve_left hnot
    have hsplit := Finset.card_filter_add_card_filter_not (s := s)
      fun x => r.1 <= x ∧ x < r.1 + r.2
    rw [total, List.map_cons, List.sum_cons]
    unfold total at hout
    omega

theorem Tiles.length_le (h : Tiles regions blocks) {b : Block} (hb : b ∈ blocks) :
    b.2 <= total regions := by
  have hcard := card_le_total regions (Finset.Ico b.1 (b.1 + b.2)) fun x hx =>
    (h.cover x).mpr ⟨b, hb, Finset.mem_Ico.mp hx⟩
  rw [Nat.card_Ico, Nat.add_sub_cancel_left] at hcard
  exact hcard

end

theorem Separated.insert {l r : List Block} {b : Block} (hl : Separated l) (hr : Separated r)
    (hbefore : forall c, c ∈ l -> c.1 + c.2 < b.1) (hafter : forall c, c ∈ r -> b.1 + b.2 < c.1) :
    Separated (l ++ b :: r) := by
  refine List.pairwise_append.mpr ⟨hl, List.pairwise_cons.mpr ⟨hafter, hr⟩, ?_⟩
  intro c hc d hd
  have hcb := hbefore c hc
  rcases List.mem_cons.mp hd with rfl | hd
  · exact hcb
  · have hbd := hafter d hd
    omega

theorem Separated.split_at {fl : List Block} (h : Separated fl) {b : Block}
    (hapart : forall c, c ∈ fl -> Apart b c) :
    exists l r, fl = l ++ r ∧ (forall c, c ∈ l -> c.1 + c.2 <= b.1) ∧
      forall c, c ∈ r -> b.1 + b.2 <= c.1 := by
  induction fl with
  | nil => exact ⟨[], [], rfl, nofun, nofun⟩
  | cons c fl ih =>
    obtain ⟨hc, hfl⟩ := List.pairwise_cons.mp h
    obtain ⟨hbc, hrest⟩ := List.forall_mem_cons.mp hapart
    rcases hbc with habove | hbelow
    · refine ⟨[], c :: fl, rfl, nofun, List.forall_mem_cons.mpr ⟨habove, fun d hd => ?_⟩⟩
      have hcd := hc d hd
      omega
    · obtain ⟨l, r, rfl, hl, hr⟩ := ih hfl hrest
      exact ⟨c :: l, r, rfl, List.forall_mem_cons.mpr ⟨hbelow, hl⟩, hr⟩

/-! ## Rings of pointers -/

def lastOf : Nat -> List Nat -> Nat
  | x, [] => x
  | _, z :: l => lastOf z l

theorem lastOf_append (x : Nat) (l : List Nat) (z : Nat) : lastOf x (l ++ [z]) = z := by
  induction l generalizing x with
  | nil => rfl
  | cons w l ih => exact ih w

theorem lastOf_mem (x : Nat) (l : List Nat) : lastOf x l ∈ x :: l := by
  induction l generalizing x with
  | nil => exact List.mem_singleton_self x
  | cons w l ih => exact List.mem_cons_of_mem x (ih w)

theorem exists_lastOf {x y : Nat} {l : List Nat} (h : y ∈ x :: l) :
    exists l1 l2, l = l1 ++ l2 ∧ lastOf x l1 = y := by
  induction l generalizing x with
  | nil => exact ⟨[], [], rfl, (List.mem_singleton.mp h).symm⟩
  | cons w l ih =>
    rcases List.mem_cons.mp h with rfl | h
    · exact ⟨[], w :: l, rfl, rfl⟩
    · obtain ⟨l1, l2, rfl, hlast⟩ := ih h
      exact ⟨w :: l1, l2, rfl, hlast⟩

/-- The pointers lead from `x` through the list to `y`. -/
def Linked (ptr : Nat -> Nat) : Nat -> List Nat -> Nat -> Prop
  | x, [], y => ptr x = y
  | x, z :: l, y => ptr x = z ∧ Linked ptr z l y

section

variable {ptr ptr' : Nat -> Nat} {x y z : Nat} {l r : List Nat}

theorem linked_append : Linked ptr x (l ++ z :: r) y <-> Linked ptr x l z ∧ Linked ptr z r y := by
  induction l generalizing x with
  | nil => exact Iff.rfl
  | cons w l ih =>
    rw [List.cons_append]
    simp only [Linked, ih, and_assoc]

theorem Linked.drop (h : Linked ptr x (l ++ r) y) : Linked ptr (lastOf x l) r y := by
  induction l generalizing x with
  | nil => exact h
  | cons w l ih => exact ih h.2

theorem Linked.congr (h : Linked ptr x l y) (hsame : forall z, z ∈ x :: l -> ptr' z = ptr z) :
    Linked ptr' x l y := by
  induction l generalizing x with
  | nil => exact (hsame x List.mem_cons_self).trans h
  | cons w l ih =>
    obtain ⟨hx, hrest⟩ := List.forall_mem_cons.mp hsame
    exact ⟨hx.trans h.1, ih h.2 hrest⟩

theorem Linked.head (h : Linked ptr x l y) {w : Nat} (hw : ptr' w = ptr x)
    (hsame : forall z, z ∈ l -> ptr' z = ptr z) : Linked ptr' w l y := by
  cases l with
  | nil => exact hw.trans h
  | cons z l => exact ⟨hw.trans h.1, h.2.congr hsame⟩

theorem Linked.relink (h : Linked ptr x (l ++ r) y) {q : List Nat}
    (hsame : forall z, z ∈ x :: l -> z ≠ lastOf x l -> ptr' z = ptr z)
    (hdistinct : (x :: l).Nodup) (hnew : Linked ptr' (lastOf x l) q y) :
    Linked ptr' x (l ++ q) y := by
  induction l generalizing x with
  | nil => exact hnew
  | cons w l ih =>
    obtain ⟨hnot, hdistinct⟩ := List.nodup_cons.mp hdistinct
    have hne : x ≠ lastOf w l := fun heq => hnot (heq ▸ lastOf_mem w l)
    refine ⟨(hsame x List.mem_cons_self hne).trans h.1, ih h.2 ?_ hdistinct hnew⟩
    intro z hz
    exact hsame z (List.mem_cons_of_mem x hz)

end

end Blocks
end Lib
end Xv6
