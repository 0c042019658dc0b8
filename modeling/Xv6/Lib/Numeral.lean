import Mathlib.Data.Nat.Digits.Lemmas

/-!
# Numerals

The numeral of a number is its digits in a base, the most significant first.  A
program that divides the number down and stores the digits in a buffer of fixed size
produces it backwards.
-/

namespace Xv6
namespace Lib

section

variable (base : Nat)

def lowDigits (n : Nat) : List Nat :=
  if n = 0 then [0] else Nat.digits base n

def numeral (digit : Nat -> Char) (n : Nat) : List Char :=
  ((lowDigits base n).map digit).reverse

def intNumeral (digit : Nat -> Char) (z : Int) : List Char :=
  if z < 0 then '-' :: numeral base digit z.natAbs else numeral base digit z.natAbs

/-- One character stored at the end of what a buffer of `cap` bytes holds. -/
def store (cap : Nat) (buf : List Char) (c : Char) : Option (List Char) :=
  if buf.length < cap then some (buf ++ [c]) else none

def digitLoop (cap : Nat) (digit : Nat -> Char) : Nat -> Nat -> List Char -> Option (List Char)
  | 0, _, _ => none
  | fuel + 1, x, buf => do
      let buf <- store cap buf (digit (x % base))
      if x / base = 0 then
        some buf
      else
        digitLoop cap digit fuel (x / base) buf

def emit (cap : Nat) (digit : Nat -> Char) (fuel : Nat) (neg : Bool) (x : Nat) :
    Option (List Char) := do
  let buf <- digitLoop base cap digit fuel x []
  let buf <- if neg then store cap buf '-' else some buf
  return buf.reverse

end

section

variable {base cap fuel k x : Nat} {digit : Nat -> Char}

theorem lowDigits_eq (hbase : 1 < base) (x : Nat) :
    lowDigits base x =
      x % base :: (if x / base = 0 then [] else lowDigits base (x / base)) := by
  unfold lowDigits
  by_cases hx : x = 0
  · subst hx
    simp
  · rw [if_neg hx, Nat.digits_def' hbase (Nat.pos_of_ne_zero hx)]
    by_cases hq : x / base = 0
    · simp [hq]
    · simp [hq]

theorem lowDigits_length_le (hbase : 1 < base) (hk : 0 < k) (hx : x < base ^ k) :
    (lowDigits base x).length <= k := by
  unfold lowDigits
  split
  · exact hk
  · exact (Nat.digits_length_le_iff hbase x).mpr hx

theorem lowDigits_lt (hbase : 1 < base) {d : Nat} (hd : d ∈ lowDigits base x) : d < base := by
  unfold lowDigits at hd
  split at hd
  · rw [List.mem_singleton.mp hd]
    omega
  · exact Nat.digits_lt_base hbase hd

theorem ofDigits_lowDigits (base x : Nat) : Nat.ofDigits base (lowDigits base x) = x := by
  unfold lowDigits
  split
  · next hzero =>
      rw [hzero]
      rfl
  · exact Nat.ofDigits_digits base x

theorem numeral_inj (hbase : 1 < base) (back : Char -> Nat)
    (hback : forall d, d < base -> back (digit d) = d) {y : Nat}
    (h : numeral base digit x = numeral base digit y) : x = y := by
  have hread : forall z, Nat.ofDigits base ((numeral base digit z).reverse.map back) = z := by
    intro z
    unfold numeral
    rw [List.reverse_reverse, List.map_map]
    have hmap : (lowDigits base z).map (back ∘ digit) = lowDigits base z :=
      (List.map_congr_left fun d hd => hback d (lowDigits_lt hbase hd)).trans (List.map_id _)
    rw [hmap, ofDigits_lowDigits]
  rw [← hread x, h, hread]

theorem store_eq {buf : List Char} {c : Char} (h : buf.length < cap) :
    store cap buf c = some (buf ++ [c]) :=
  if_pos h

theorem digitLoop_eq (hbase : 1 < base) (buf : List Char)
    (hfuel : (lowDigits base x).length <= fuel)
    (hcap : buf.length + (lowDigits base x).length <= cap) :
    digitLoop base cap digit fuel x buf = some (buf ++ (lowDigits base x).map digit) := by
  induction fuel generalizing x buf with
  | zero =>
    rw [lowDigits_eq hbase x] at hfuel
    exact absurd hfuel (Nat.not_succ_le_zero _)
  | succ fuel ih =>
    rw [lowDigits_eq hbase x] at hfuel hcap ⊢
    rw [List.length_cons] at hfuel hcap
    unfold digitLoop
    rw [store_eq (by omega)]
    by_cases hq : x / base = 0
    · simp [hq]
    · rw [if_neg hq] at hfuel hcap ⊢
      have hrest := ih (x := x / base) (buf ++ [digit (x % base)]) (by omega)
        (by rw [List.length_append, List.length_singleton]; omega)
      simp [hq, hrest]

theorem emit_eq (hbase : 1 < base) (hk : 0 < k) (hx : x < base ^ k) (hfuel : k <= fuel)
    (neg : Bool) (hcap : k + neg.toNat <= cap) :
    emit base cap digit fuel neg x =
      some (if neg then '-' :: numeral base digit x else numeral base digit x) := by
  have hlen := lowDigits_length_le hbase hk hx
  unfold emit
  rw [digitLoop_eq hbase [] (by omega) (by rw [List.length_nil]; omega), List.nil_append]
  cases neg with
  | false => simp [numeral]
  | true =>
    have hroom : ((lowDigits base x).map digit).length < cap := by
      rw [List.length_map]
      rw [Bool.toNat_true] at hcap
      omega
    simp [store_eq hroom, numeral]

theorem emit_int (hbase : 1 < base) (hk : 0 < k) {z : Int} (hz : z.natAbs < base ^ k)
    (hfuel : k <= fuel) (hcap : k + (decide (z < 0)).toNat <= cap) :
    emit base cap digit fuel (decide (z < 0)) z.natAbs = some (intNumeral base digit z) := by
  rw [emit_eq hbase hk hz hfuel _ hcap]
  simp only [intNumeral, decide_eq_true_eq]

end

/-! ## The number a machine word stands for -/

def value {w : Nat} (sgn : Bool) (xx : BitVec w) : Int :=
  if sgn then xx.toInt else xx.toNat

section

variable {w : Nat} (sgn : Bool) (xx : BitVec w)

theorem value_neg_iff : (sgn && decide (xx.toInt < 0)) = decide (value sgn xx < 0) := by
  cases sgn with
  | false => simp [value]
  | true => simp [value]

theorem magnitude_eq :
    (if value sgn xx < 0 then -xx else xx).toNat = (value sgn xx).natAbs := by
  have hlt := xx.isLt
  split
  · next hneg =>
      cases sgn with
      | false => exact absurd hneg (by simp [value])
      | true =>
        have hint : xx.toInt < 0 := hneg
        change (-xx).toNat = xx.toInt.natAbs
        rw [BitVec.toInt_eq_toNat_cond] at hint ⊢
        rw [BitVec.toNat_neg]
        split at hint
        · omega
        · rw [Nat.mod_eq_of_lt (by omega)]
          rw [if_neg (by assumption)]
          omega
  · next hpos =>
      cases sgn with
      | false => exact (Int.natAbs_natCast _).symm
      | true =>
        have hint : ¬ xx.toInt < 0 := hpos
        change xx.toNat = xx.toInt.natAbs
        rw [BitVec.toInt_eq_toNat_cond] at hint ⊢
        split at hint
        · next hsmall =>
            rw [if_pos hsmall]
            rfl
        · omega

end

end Lib
end Xv6
