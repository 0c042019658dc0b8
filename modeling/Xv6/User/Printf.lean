import Xv6.Lib.Numeral

/-!
# The user library's `printf`

The characters that `vprintf` writes.  The arguments are a list of 64-bit words, and
`text` is the string at an address of the process.
-/

namespace Xv6
namespace User

open Lib

def digits (d : Nat) : Char :=
  "0123456789ABCDEF".toList.getD d '\x00'

/-- `none` stands for a write outside of `buf`, or a loop that does not end. -/
def printint (xx : BitVec 64) (base : Nat) (sgn : Bool) : Option (List Char) :=
  let neg := sgn && decide (xx.toInt < 0)
  -- `x` is a `uint`, so the number is cut to 32 bits here
  let x : BitVec 32 := (if neg then -xx else xx).setWidth 32
  emit base 20 digits 64 neg x.toNat

def printptrLoop : Nat -> BitVec 64 -> List Char
  | 0, _ => []
  | n + 1, x => digits (x >>> 60).toNat :: printptrLoop n (x <<< 4)

def printptr (x : BitVec 64) : List Char :=
  '0' :: 'x' :: printptrLoop 16 x

inductive Directive where
  | int (wide : Bool) (base : Nat) (sgn : Bool)
  | ptr
  | char
  | str
  | percent
  | unknown

def directive (c0 c1 c2 : Char) : Directive × Nat :=
  if c0 = 'd' then (.int false 10 true, 0)
  else if c0 = 'l' ∧ c1 = 'd' then (.int true 10 true, 1)
  else if c0 = 'l' ∧ c1 = 'l' ∧ c2 = 'd' then (.int true 10 true, 2)
  else if c0 = 'u' then (.int false 10 false, 0)
  else if c0 = 'l' ∧ c1 = 'u' then (.int true 10 false, 1)
  else if c0 = 'l' ∧ c1 = 'l' ∧ c2 = 'u' then (.int true 10 false, 2)
  else if c0 = 'x' then (.int false 16 false, 0)
  else if c0 = 'l' ∧ c1 = 'x' then (.int true 16 false, 1)
  else if c0 = 'l' ∧ c1 = 'l' ∧ c2 = 'x' then (.int true 16 false, 2)
  else if c0 = 'p' then (.ptr, 0)
  else if c0 = 'c' then (.char, 0)
  else if c0 = 's' then (.str, 0)
  else if c0 = '%' then (.percent, 0)
  else (.unknown, 0)

/-- `va_arg` as a `uint64`, an `int` or a `uint32`, converted to `long long`. -/
def vaArg (wide sgn : Bool) (a : BitVec 64) : BitVec 64 :=
  if wide then a
  else if sgn then (a.setWidth 32).signExtend 64
  else (a.setWidth 32).setWidth 64

def convert (text : BitVec 64 -> List Char) (c0 : Char) :
    Directive -> List (BitVec 64) -> Option (List Char × List (BitVec 64))
  | .int wide base sgn, a :: ap => do
      let out <- printint (vaArg wide sgn a) base sgn
      return (out, ap)
  | .ptr, a :: ap => some (printptr a, ap)
  | .char, a :: ap => some ([Char.ofNat (a.toNat % 256)], ap)
  | .str, a :: ap => some (if a = 0 then "(null)".toList else text a, ap)
  | .percent, ap => some (['%'], ap)
  | .unknown, ap => some (['%', c0], ap)
  | _, [] => none

/-- The loop over the format: whether a `%` has been read, and the characters that
`i` still has to pass. -/
def vprintf (text : BitVec 64 -> List Char) :
    Bool -> Nat -> List Char -> List (BitVec 64) -> Option (List Char)
  | _, _, [], _ => some []
  | state, skip + 1, _ :: fmt, ap => vprintf text state skip fmt ap
  | false, 0, c0 :: fmt, ap =>
    if c0 = '%' then
      vprintf text true 0 fmt ap
    else do
      let rest <- vprintf text false 0 fmt ap
      return c0 :: rest
  | true, 0, c0 :: fmt, ap => do
      let found := directive c0 (fmt.getD 0 '\x00') (fmt.getD 1 '\x00')
      let done <- convert text c0 found.1 ap
      let rest <- vprintf text false found.2 fmt done.2
      return done.1 ++ rest

/-! ## The numeric directives -/

inductive Length where
  | int
  | long
  | longLong

inductive Kind where
  | d
  | u
  | x

def Length.chars : Length -> List Char
  | .int => []
  | .long => ['l']
  | .longLong => ['l', 'l']

def Length.wide : Length -> Bool
  | .int => false
  | _ => true

def Kind.char : Kind -> Char
  | .d => 'd'
  | .u => 'u'
  | .x => 'x'

def Kind.base : Kind -> Nat
  | .x => 16
  | _ => 10

def Kind.sgn : Kind -> Bool
  | .d => true
  | _ => false

/-- The number that an argument stands for. -/
def argument (length : Length) (kind : Kind) (a : BitVec 64) : Int :=
  if length.wide then value kind.sgn a else value kind.sgn (a.setWidth 32)

theorem value_vaArg (length : Length) (kind : Kind) (a : BitVec 64) :
    value kind.sgn (vaArg length.wide kind.sgn a) = argument length kind a := by
  unfold vaArg argument
  cases length.wide with
  | true => rfl
  | false =>
    cases kind.sgn with
    | true => exact BitVec.toInt_signExtend_of_le (by decide)
    | false =>
      have hlt := (a.setWidth 32).isLt
      change (((a.setWidth 32).setWidth 64).toNat : Int) = (a.setWidth 32).toNat
      rw [BitVec.toNat_setWidth_of_le (by decide)]

theorem emit_uint {base x : Nat} (hbase : 10 <= base) (neg : Bool) (hx : x < 2 ^ 32) :
    emit base 20 digits 64 neg x =
      some (if neg then '-' :: numeral base digits x else numeral base digits x) := by
  have hpow : x < base ^ 10 :=
    Nat.lt_of_lt_of_le (by omega) (Nat.pow_le_pow_left hbase 10)
  exact emit_eq (by omega) (by decide) hpow (by decide) neg (by cases neg <;> decide)

/-- What is printed is the numeral of the low 32 bits of the magnitude, with the sign of the
argument. -/
theorem printint_eq (xx : BitVec 64) {base : Nat} (hbase : 10 <= base) (sgn : Bool) :
    printint xx base sgn = some (if value sgn xx < 0
      then '-' :: numeral base digits ((value sgn xx).natAbs % 2 ^ 32)
      else numeral base digits ((value sgn xx).natAbs % 2 ^ 32)) := by
  simp only [printint, value_neg_iff, decide_eq_true_eq, BitVec.toNat_setWidth, magnitude_eq]
  rw [emit_uint hbase _ (Nat.mod_lt _ (by decide))]
  simp only [decide_eq_true_eq]

theorem printint_isSome (xx : BitVec 64) {base : Nat} (hbase : 10 <= base) (sgn : Bool) :
    (printint xx base sgn).isSome := by
  rw [printint_eq xx hbase sgn]
  rfl

theorem digits_back {d : Nat} (hd : d < 16) : "0123456789ABCDEF".toList.idxOf (digits d) = d := by
  have hall : forall d : Fin 16, "0123456789ABCDEF".toList.idxOf (digits d) = d := by decide
  exact hall ⟨d, hd⟩

theorem printint_value (xx : BitVec 64) (sgn : Bool) {base : Nat} (hbase : 10 <= base)
    (hmax : base <= 16) :
    printint xx base sgn = some (intNumeral base digits (value sgn xx)) <->
      (value sgn xx).natAbs < 2 ^ 32 := by
  rw [printint_eq xx hbase sgn, Option.some_inj]
  constructor
  · intro h
    have hsame : numeral base digits ((value sgn xx).natAbs % 2 ^ 32) =
        numeral base digits (value sgn xx).natAbs := by
      unfold intNumeral at h
      split at h
      · exact (List.cons.inj h).2
      · exact h
    have heq := numeral_inj (by omega) ("0123456789ABCDEF".toList.idxOf ·)
      (fun d hd => digits_back (Nat.lt_of_lt_of_le hd hmax)) hsame
    rw [← heq]
    exact Nat.mod_lt _ (by decide)
  · intro h
    rw [Nat.mod_eq_of_lt h]
    rfl

theorem argument_narrow (kind : Kind) (a : BitVec 64) :
    (argument .int kind a).natAbs < 2 ^ 32 := by
  have hlow := (a.setWidth 32).le_toInt
  have hhigh := (a.setWidth 32).toInt_lt
  have hlt := (a.setWidth 32).isLt
  unfold argument value
  cases kind <;> simp only [Length.wide, Kind.sgn, if_true, Bool.false_eq_true, if_false] <;> omega

theorem vprintf_directive (text : BitVec 64 -> List Char) (length : Length) (kind : Kind)
    (fmt : List Char) (a : BitVec 64) (ap : List (BitVec 64)) :
    vprintf text false 0 ('%' :: (length.chars ++ kind.char :: fmt)) (a :: ap) = (do
      let out <- printint (vaArg length.wide kind.sgn a) kind.base kind.sgn
      let rest <- vprintf text false 0 fmt ap
      return out ++ rest) := by
  cases length <;> cases kind <;>
    simp [vprintf, Length.chars, Kind.char, directive, convert, Length.wide, Kind.sgn, Kind.base,
      Option.bind_assoc]

/-- Every numeric directive prints something, which is the numeral of its argument if and only if a
64-bit argument is a number of at most 32 bits. -/
theorem vprintf_number (text : BitVec 64 -> List Char) (length : Length) (kind : Kind)
    (a : BitVec 64) :
    (exists out, (forall fmt ap,
        vprintf text false 0 ('%' :: (length.chars ++ kind.char :: fmt)) (a :: ap) =
          (vprintf text false 0 fmt ap).map (out ++ ·)) ∧
      (out = intNumeral kind.base digits (argument length kind a) <->
        length = .int ∨ (argument length kind a).natAbs < 2 ^ 32)) ∧
      forall (xx : BitVec 64) (sgn : Bool), (printint xx kind.base sgn).isSome := by
  have hbase : 10 <= kind.base := by
    cases kind <;> decide
  have hmax : kind.base <= 16 := by
    cases kind <;> decide
  refine ⟨?_, fun xx sgn => printint_isSome xx hbase sgn⟩
  obtain ⟨out, hout⟩ := Option.isSome_iff_exists.mp
    (printint_isSome (vaArg length.wide kind.sgn a) hbase kind.sgn)
  refine ⟨out, ?_, ?_⟩
  · intro fmt ap
    rw [vprintf_directive, hout]
    cases vprintf text false 0 fmt ap <;> rfl
  · have hvalue := printint_value (vaArg length.wide kind.sgn a) kind.sgn hbase hmax
    rw [hout, Option.some_inj, value_vaArg] at hvalue
    rw [hvalue]
    constructor
    · exact .inr
    · rintro (rfl | h)
      · exact argument_narrow kind a
      · exact h

theorem vprintf_cut :
    vprintf (fun _ => []) false 0 "%lx".toList [BitVec.ofNat 64 (2 ^ 32)] = some ['0'] ∧
      argument .long .x (BitVec.ofNat 64 (2 ^ 32)) = 4294967296 ∧
      intNumeral 16 digits 4294967296 = "100000000".toList := by
  refine ⟨by decide, by decide, ?_⟩
  simp [intNumeral, numeral, lowDigits, digits]

end User
end Xv6
