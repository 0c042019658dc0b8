import Xv6.Lib.Numeral

/-!
# Numbers on the console

`printint` of the kernel prints a 64-bit number from a buffer of 20 bytes.
-/

namespace Xv6
namespace Console

open Lib

def digits (d : Nat) : Char :=
  "0123456789abcdef".toList.getD d '\x00'

def BUFSIZE : Nat :=
  20

/-- `none` stands for a write outside of `buf`, or a loop that does not end. -/
def printint (xx : BitVec 64) (base : Nat) (sign : Bool) : Option (List Char) :=
  let sign := sign && decide (xx.toInt < 0)
  let x := if sign then -xx else xx
  emit base BUFSIZE digits 64 sign x.toNat

/-- The buffer is long enough: for 20 digits, or for 19 digits and the sign. -/
theorem printint_numeral (xx : BitVec 64) {base : Nat} (hbase : base = 10 ∨ base = 16)
    (sign : Bool) :
    printint xx base sign = some (intNumeral base digits (value sign xx)) := by
  have hten : 10 <= base := by omega
  have hlow := xx.le_toInt
  have hhigh := xx.toInt_lt
  have hlt := xx.isLt
  simp only [printint, value_neg_iff, decide_eq_true_eq, magnitude_eq]
  by_cases hneg : value sign xx < 0
  · have habs : (value sign xx).natAbs < 10 ^ 19 := by
      cases sign <;> simp only [value, if_true, Bool.false_eq_true, if_false] at hneg ⊢ <;> omega
    have hpow := Nat.lt_of_lt_of_le habs (Nat.pow_le_pow_left hten 19)
    exact emit_int (by omega) (by decide) hpow (by decide) (by simp [hneg, BUFSIZE])
  · have habs : (value sign xx).natAbs < 10 ^ 20 := by
      unfold value
      split <;> omega
    have hpow := Nat.lt_of_lt_of_le habs (Nat.pow_le_pow_left hten 20)
    exact emit_int (by omega) (by decide) hpow (by decide) (by simp [hneg, BUFSIZE])

theorem printint_numeral_extremes :
    printint (BitVec.ofNat 64 (2 ^ 63)) 10 true =
        some (intNumeral 10 digits (-9223372036854775808)) ∧
      printint (BitVec.ofNat 64 (2 ^ 64 - 1)) 10 false =
        some (intNumeral 10 digits 18446744073709551615) := by
  constructor
  · exact printint_numeral (BitVec.ofNat 64 (2 ^ 63)) (Or.inl rfl) true
  · exact printint_numeral (BitVec.ofNat 64 (2 ^ 64 - 1)) (Or.inl rfl) false

end Console
end Xv6
