import Mathlib.Data.Set.Insert
import Mathlib.Logic.Function.Basic

/-!
# Slots that hold numbers

A table of slots, each of which is empty or holds a number.  An empty slot holds
zero.  The slots are apart if no number is in two of them; then a number that is
put into an empty slot, or taken out of its slot, changes the set of numbers by
exactly that one.
-/

namespace Xv6
namespace Lib

open Function

variable {slot : Type}

def Taken (f : slot -> Nat) : Set Nat :=
  {b | b ≠ 0 ∧ exists p, f p = b}

def Apart (f : slot -> Nat) : Prop :=
  forall p q, f p = f q -> f p ≠ 0 -> p = q

variable {f g : slot -> Nat} {p : slot} {b : Nat}

theorem taken_of_ne (h : f p ≠ 0) : f p ∈ Taken f :=
  ⟨h, p, rfl⟩

theorem taken_empty (h : forall p, f p = 0) : Taken f = ∅ := by
  ext b
  constructor
  · intro hb
    rcases hb with ⟨hne, p, rfl⟩
    exact absurd (h p) hne
  · exact False.elim

theorem apart_empty (h : forall p, f p = 0) : Apart f := by
  intro p q _ hne
  exact absurd (h p) hne

section

variable [DecidableEq slot]

theorem taken_put (hp : f p = 0) (hb : b ≠ 0) :
    Taken (update f p b) = insert b (Taken f) := by
  ext c
  constructor
  · intro hc
    rcases hc with ⟨hne, q, rfl⟩
    rcases eq_or_ne q p with rfl | hq
    · rw [update_self]
      exact Set.mem_insert _ _
    · rw [update_of_ne hq] at hne ⊢
      exact Set.mem_insert_of_mem _ (taken_of_ne hne)
  · intro hc
    rcases hc with rfl | ⟨hne, q, rfl⟩
    · exact ⟨hb, p, update_self _ _ _⟩
    · refine ⟨hne, q, update_of_ne ?_ _ _⟩
      intro heq
      subst heq
      exact hne hp

theorem Apart.put (h : Apart f) (hb : b ∉ Taken f) : Apart (update f p b) := by
  intro q r heq hne
  by_cases hq : q = p
  · by_cases hr : r = p
    · rw [hq, hr]
    · subst hq
      rw [update_self, update_of_ne hr] at heq
      rw [update_self] at hne
      exact absurd ⟨hne, r, heq.symm⟩ hb
  · by_cases hr : r = p
    · subst hr
      rw [update_self, update_of_ne hq] at heq
      rw [update_of_ne hq] at hne
      exact absurd ⟨heq ▸ hne, q, heq⟩ hb
    · rw [update_of_ne hq, update_of_ne hr] at heq
      rw [update_of_ne hq] at hne
      exact h q r heq hne

end

end Lib
end Xv6
