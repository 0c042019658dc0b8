import Mathlib.Algebra.BigOperators.Group.Finset.Basic
import Mathlib.Algebra.Order.BigOperators.Group.Finset

/-!
# Tables of a fixed number of slots

A table of `n` slots is a function on indices.  Sums over the slots count how often
something occurs in the table.
-/

namespace Xv6
namespace Lib

theorem sum_range_update {n k : Nat} (hk : k < n) (F F' : Nat -> Nat)
    (h : forall j, j < n -> j ≠ k -> F' j = F j) :
    (∑ j ∈ Finset.range n, F' j) + F k = (∑ j ∈ Finset.range n, F j) + F' k := by
  have hmem : k ∈ Finset.range n := Finset.mem_range.mpr hk
  have hrest : (∑ j ∈ (Finset.range n).erase k, F' j) =
      ∑ j ∈ (Finset.range n).erase k, F j := by
    apply Finset.sum_congr rfl
    intro j hj
    rcases Finset.mem_erase.mp hj with ⟨hne, hlt⟩
    exact h j (Finset.mem_range.mp hlt) hne
  rw [← Finset.add_sum_erase _ F' hmem, ← Finset.add_sum_erase _ F hmem, hrest]
  omega

theorem le_sum_range {n k : Nat} (hk : k < n) (F : Nat -> Nat) :
    F k <= ∑ j ∈ Finset.range n, F j :=
  Finset.single_le_sum (fun _ _ => Nat.zero_le _) (Finset.mem_range.mpr hk)

theorem find_range {n j : Nat} {f : Nat -> Bool} (h : (List.range n).find? f = some j) :
    j < n ∧ f j = true :=
  ⟨List.mem_range.mp (List.mem_of_find?_eq_some h), List.find?_some h⟩

end Lib
end Xv6
