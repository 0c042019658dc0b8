import Mathlib.Algebra.Order.Ring.Nat
import Mathlib.Tactic.Ring

/-!
# Little-endian fields of a byte array

Structures that live on disk or in a page are read and written through integer
fields at fixed byte offsets.  A byte array is a function on offsets; a field
of `k` bytes is read by `getLE` and written by `setLE`.
-/

namespace Xv6
namespace Lib

abbrev Bytes := Nat -> UInt8

namespace Bytes

def getLE (b : Bytes) (off : Nat) : Nat -> Nat
  | 0 => 0
  | k + 1 => (b off).toNat + 256 * getLE b (off + 1) k

def setLE (b : Bytes) (off k w : Nat) : Bytes :=
  fun i =>
    if off <= i ∧ i < off + k then
      UInt8.ofNat (w / 256 ^ (i - off))
    else
      b i

theorem setLE_inside (b : Bytes) {off k i : Nat} (w : Nat) (hlo : off <= i) (hhi : i < off + k) :
    setLE b off k w i = UInt8.ofNat (w / 256 ^ (i - off)) := by
  unfold setLE
  rw [if_pos (And.intro hlo hhi)]

theorem setLE_outside (b : Bytes) {off k i : Nat} (w : Nat) (h : i < off ∨ off + k <= i) :
    setLE b off k w i = b i := by
  unfold setLE
  rw [if_neg]
  omega

theorem getLE_congr {b c : Bytes} {off k : Nat}
    (h : forall i, off <= i -> i < off + k -> b i = c i) :
    getLE b off k = getLE c off k := by
  induction k generalizing off with
  | zero =>
    rfl
  | succ k ih =>
    have hhead : b off = c off := h off (Nat.le_refl _) (by omega)
    have htail : getLE b (off + 1) k = getLE c (off + 1) k := by
      apply ih
      intro i hlo hhi
      exact h i (by omega) (by omega)
    simp only [getLE, hhead, htail]

theorem getLE_lt (b : Bytes) (off k : Nat) :
    getLE b off k < 256 ^ k := by
  induction k generalizing off with
  | zero =>
    simp [getLE]
  | succ k ih =>
    have hbyte : (b off).toNat < 256 := (b off).toNat_lt
    have htail := ih (off + 1)
    rw [getLE, Nat.pow_succ]
    omega

theorem getLE_setLE_disjoint (b : Bytes) {off k off' k' : Nat} (w : Nat)
    (h : off' + k' <= off ∨ off + k <= off') :
    getLE (setLE b off k w) off' k' = getLE b off' k' := by
  apply getLE_congr
  intro i hlo hhi
  apply setLE_outside
  omega

/-!
The written value is read back byte by byte: the induction peels the lowest byte
of `w` off, leaving `w / 256` for the remaining `k` bytes.
-/

theorem getLE_digits {b : Bytes} {off k w : Nat}
    (h : forall i, i < k -> b (off + i) = UInt8.ofNat (w / 256 ^ i)) :
    getLE b off k = w % 256 ^ k := by
  induction k generalizing off w with
  | zero =>
    simp [getLE, Nat.mod_one]
  | succ k ih =>
    have hbyte : (b off).toNat = w % 256 := by
      have h0 := h 0 (by omega)
      simp only [Nat.add_zero, Nat.pow_zero, Nat.div_one] at h0
      rw [h0]
      simp
    have htail : getLE b (off + 1) k = w / 256 % 256 ^ k := by
      apply ih
      intro i hi
      have hi1 := h (i + 1) (by omega)
      rw [Nat.pow_succ, Nat.mul_comm, ← Nat.div_div_eq_div_mul] at hi1
      rw [← hi1]
      congr 1
      omega
    rw [getLE, hbyte, htail, Nat.pow_succ, Nat.mul_comm (256 ^ k) 256,
      Nat.mod_mul]

theorem getLE_setLE (b : Bytes) {off k w : Nat} (hw : w < 256 ^ k) :
    getLE (setLE b off k w) off k = w := by
  have hdigits : getLE (setLE b off k w) off k = w % 256 ^ k := by
    apply getLE_digits
    intro i hi
    rw [setLE_inside b w (by omega) (by omega)]
    congr 3
    omega
  rw [hdigits, Nat.mod_eq_of_lt hw]

end Bytes
end Lib
end Xv6
