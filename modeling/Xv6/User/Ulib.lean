import Mathlib.Logic.Function.Basic

/-!
# The user library

The copy loops of `memmove`.
-/

namespace Xv6
namespace User

open Function

def nul : Char :=
  '\x00'

variable {α : Type}

def moveUp : Nat -> Nat -> Nat -> (Nat -> α) -> Nat -> α
  | 0, _, _, mem => mem
  | n + 1, dst, src, mem => moveUp n (dst + 1) (src + 1) (update mem dst (mem src))

def moveDown : Nat -> Nat -> Nat -> (Nat -> α) -> Nat -> α
  | 0, _, _, mem => mem
  | n + 1, dst, src, mem => moveDown n (dst - 1) (src - 1) (update mem (dst - 1) (mem (src - 1)))

def memmove (mem : Nat -> α) (dst src n : Nat) : Nat -> α :=
  if dst < src then
    moveUp n dst src mem
  else
    moveDown n (dst + n) (src + n) mem

variable {mem : Nat -> α} {dst src n a : Nat}

theorem moveUp_apply (h : dst <= src ∨ src + n <= dst) :
    moveUp n dst src mem a =
      if dst <= a ∧ a < dst + n then mem (src + (a - dst)) else mem a := by
  induction n generalizing dst src mem with
  | zero => rw [moveUp, if_neg (by omega)]
  | succ n ih =>
    rw [moveUp, ih (by omega)]
    by_cases ha : a = dst
    · subst ha
      rw [if_neg (by omega), if_pos (by omega), update_self, Nat.sub_self, Nat.add_zero]
    · rw [update_of_ne ha]
      by_cases hin : dst <= a ∧ a < dst + (n + 1)
      · rw [if_pos (by omega), if_pos hin, update_of_ne (by omega)]
        congr 1
        omega
      · rw [if_neg (by omega), if_neg hin]

theorem moveDown_apply (h : src <= dst) :
    moveDown n (dst + n) (src + n) mem a =
      if dst <= a ∧ a < dst + n then mem (src + (a - dst)) else mem a := by
  induction n generalizing mem with
  | zero => rw [moveDown, if_neg (by omega)]
  | succ n ih =>
    change moveDown n (dst + n) (src + n) (update mem (dst + n) (mem (src + n))) a = _
    rw [ih]
    by_cases ha : a = dst + n
    · subst ha
      rw [if_neg (by omega), if_pos (by omega), update_self]
      congr 1
      omega
    · rw [update_of_ne ha]
      by_cases hin : dst <= a ∧ a < dst + n
      · rw [if_pos hin, if_pos (by omega), update_of_ne (by omega)]
      · rw [if_neg hin, if_neg (by omega)]

theorem memmove_apply (mem : Nat -> α) (dst src n a : Nat) :
    memmove mem dst src n a =
      if dst <= a ∧ a < dst + n then mem (src + (a - dst)) else mem a := by
  unfold memmove
  split
  · next hlt => exact moveUp_apply (Or.inl (Nat.le_of_lt hlt))
  · next hle => exact moveDown_apply (Nat.le_of_not_lt hle)

end User
end Xv6
