import Xv6.Lib.LittleEndian
import Xv6.Lib.Segment
import Xv6.User.Printf

/-!
# `memdump`

What `memdump` prints and the addresses that it reads, for a format and a memory.
-/

namespace Xv6
namespace User

open Lib

def cstring (mem : Bytes) (fuel a : Nat) : List Char :=
  ((cstr 0 mem fuel a).getD []).map (fun c => Char.ofNat c.toNat)

def strlen (mem : Bytes) (fuel a : Nat) : Option Nat :=
  (cstr 0 mem fuel a).map List.length

def printf (mem : Bytes) (fuel : Nat) (fmt : String) (arg : BitVec 64) : Option (List Char) :=
  vprintf (fun a => cstring mem fuel a.toNat) false 0 fmt.toList [arg]

structure Dump where
  out : List Char
  reads : List Nat

/-- One turn of the loop over the format: what it does, and by how much it moves `data`. -/
def dumpField (mem : Bytes) (fuel : Nat) (f : Char) (data : Nat) : Option (Dump × Nat) :=
  if f = 'i' then do
    let val := BitVec.ofNat 32 (mem.getLE data 4)
    let out <- printf mem fuel "%d\n" (val.signExtend 64)
    return (⟨out, List.range' data 4⟩, 4)
  else if f = 'p' then do
    let out <- printf mem fuel "%llx\n" (BitVec.ofNat 64 (mem.getLE data 8))
    return (⟨out, List.range' data 8⟩, 8)
  else if f = 'h' then do
    let val := BitVec.ofNat 16 (mem.getLE data 2)
    let out <- printf mem fuel "%d\n" (val.signExtend 64)
    return (⟨out, List.range' data 2⟩, 2)
  else if f = 'c' then do
    let out <- printf mem fuel "%c\n" (BitVec.ofNat 64 (mem data).toNat)
    return (⟨out, List.range' data 1⟩, 1)
  else if f = 's' then do
    let s := mem.getLE data 8
    let n <- if s = 0 then some 0 else (strlen mem fuel s).map (· + 1)
    let out <- printf mem fuel "%s\n" (BitVec.ofNat 64 s)
    return (⟨out, List.range' data 8 ++ List.range' s n⟩, 8)
  else if f = 'S' then do
    let n <- strlen mem fuel data
    let out <- printf mem fuel "%s\n" (BitVec.ofNat 64 data)
    return (⟨out, List.range' data (n + 1)⟩, n + 1)
  else do
    let out <- printf mem fuel "unknown format char: %c\n" (BitVec.ofNat 64 f.toNat)
    return (⟨out, []⟩, 0)

def memdump (mem : Bytes) (fuel : Nat) : List Char -> Nat -> Option Dump
  | [], _ => some ⟨[], []⟩
  | f :: fmt, data => do
      let done <- dumpField mem fuel f data
      let rest <- memdump mem fuel fmt (data + done.2)
      return ⟨done.1.out ++ rest.out, done.1.reads ++ rest.reads⟩

def DATASIZE : Nat :=
  512

/-- The loop of `main` that reads the standard input: what each `read` has for it. -/
def readData : List (List UInt8) -> List UInt8 -> List UInt8
  | [], data => data
  | piece :: pieces, data =>
    if data.length < DATASIZE ∧ piece ≠ [] then
      readData pieces (data ++ piece.take (DATASIZE - data.length))
    else
      data

def contents (pieces : List (List UInt8)) : List UInt8 :=
  let data := readData pieces []
  data ++ List.replicate (DATASIZE - data.length) 0

theorem readData_length_le (pieces : List (List UInt8)) (data : List UInt8)
    (h : data.length <= DATASIZE) : (readData pieces data).length <= DATASIZE := by
  induction pieces generalizing data with
  | nil => exact h
  | cons piece pieces ih =>
    unfold readData
    split
    · apply ih
      rw [List.length_append, List.length_take]
      omega
    · exact h

theorem contents_length (pieces : List (List UInt8)) : (contents pieces).length = DATASIZE := by
  have hle := readData_length_le pieces [] (Nat.zero_le _)
  unfold contents
  rw [List.length_append, List.length_replicate]
  omega

/-! ## The fields of a format -/

/-- The bytes of data that a directive takes: `S` takes a string with its NUL. -/
def fieldSize (f : Char) (bytes : List UInt8) : Nat :=
  if f = 'i' then 4
  else if f = 'p' then 8
  else if f = 'h' then 2
  else if f = 'c' then 1
  else bytes.idxOf 0 + 1

def fits : List Char -> List UInt8 -> Bool
  | [], _ => true
  | f :: fmt, bytes =>
    decide (fieldSize f bytes <= bytes.length) && fits fmt (bytes.drop (fieldSize f bytes))

variable {mem : Bytes} {data fuel : Nat} {bytes : List UInt8} {f : Char}

theorem strlen_eq (h : Holds mem data bytes) (hsize : bytes.idxOf 0 < bytes.length)
    (hfuel : bytes.length <= fuel) : strlen mem fuel data = some (bytes.idxOf 0) := by
  obtain ⟨l, r, rfl, hnul⟩ := List.eq_append_cons_of_mem (List.idxOf_lt_length_iff.mp hsize)
  have hidx : (l ++ 0 :: r).idxOf 0 = l.length := by
    rw [List.idxOf_append_of_notMem hnul, List.idxOf_cons_self, Nat.add_zero]
  rw [List.append_cons] at h
  rw [List.length_append, List.length_cons] at hfuel
  unfold strlen
  rw [cstr_eq (holds_append.mp h).1 hnul (by omega), hidx]
  rfl

theorem printf_isSome (mem : Bytes) (fuel : Nat) (fmt : String) (arg : BitVec 64)
    (h : fmt ∈ ["%d\n", "%llx\n", "%c\n", "%s\n"]) :
    exists out, printf mem fuel fmt arg = some out := by
  have hint : forall (length : Length) (kind : Kind), fmt.toList =
      '%' :: (length.chars ++ kind.char :: ['\n']) ->
      exists out, printf mem fuel fmt arg = some out := by
    intro length kind hfmt
    have hbase : 10 <= kind.base := by
      cases kind <;> decide
    obtain ⟨out, hout⟩ := Option.isSome_iff_exists.mp
      (printint_isSome (vaArg length.wide kind.sgn arg) hbase kind.sgn)
    exact ⟨out ++ ['\n'], by rw [printf, hfmt, vprintf_directive, hout]; rfl⟩
  simp only [List.mem_cons, List.not_mem_nil, or_false] at h
  rcases h with rfl | rfl | rfl | rfl
  · exact hint .int .d (by decide)
  · exact hint .longLong .x (by decide)
  · exact ⟨_, rfl⟩
  · exact ⟨_, rfl⟩

theorem dumpField_fixed (hf : f ∈ ['i', 'p', 'h', 'c']) (mem : Bytes)
    (fuel data : Nat) (bytes : List UInt8) :
    exists out, dumpField mem fuel f data =
      some (⟨out, List.range' data (fieldSize f bytes)⟩, fieldSize f bytes) := by
  have hprint := printf_isSome mem fuel
  simp only [List.mem_cons, List.not_mem_nil, or_false] at hf
  rcases hf with rfl | rfl | rfl | rfl
  · obtain ⟨out, hout⟩ := hprint "%d\n" ((BitVec.ofNat 32 (mem.getLE data 4)).signExtend 64)
      (by decide)
    exact ⟨out, by simp only [dumpField, fieldSize, Char.reduceEq, if_false, if_true, hout]; rfl⟩
  · obtain ⟨out, hout⟩ := hprint "%llx\n" (BitVec.ofNat 64 (mem.getLE data 8)) (by decide)
    exact ⟨out, by simp only [dumpField, fieldSize, Char.reduceEq, if_false, if_true, hout]; rfl⟩
  · obtain ⟨out, hout⟩ := hprint "%d\n" ((BitVec.ofNat 16 (mem.getLE data 2)).signExtend 64)
      (by decide)
    exact ⟨out, by simp only [dumpField, fieldSize, Char.reduceEq, if_false, if_true, hout]; rfl⟩
  · obtain ⟨out, hout⟩ := hprint "%c\n" (BitVec.ofNat 64 (mem data).toNat) (by decide)
    exact ⟨out, by simp only [dumpField, fieldSize, Char.reduceEq, if_false, if_true, hout]; rfl⟩

theorem dumpField_string (mem : Bytes) (fuel data : Nat) :
    exists out, dumpField mem fuel 'S' data = (strlen mem fuel data).map
      fun n => (⟨out, List.range' data (n + 1)⟩, n + 1) := by
  obtain ⟨out, hout⟩ := printf_isSome mem fuel "%s\n" (BitVec.ofNat 64 data) (by decide)
  refine ⟨out, ?_⟩
  simp only [dumpField, Char.reduceEq, if_false, if_true, hout]
  cases strlen mem fuel data <;> rfl

theorem dumpField_reads (hf : f ∈ ['i', 'p', 'h', 'c'] ++ ['S']) (h : Holds mem data bytes)
    (hsize : fieldSize f bytes <= bytes.length) (hfuel : bytes.length <= fuel) :
    exists out, dumpField mem fuel f data =
      some (⟨out, List.range' data (fieldSize f bytes)⟩, fieldSize f bytes) := by
  rcases List.mem_append.mp hf with hf | hf
  · exact dumpField_fixed hf mem fuel data bytes
  · cases List.mem_singleton.mp hf
    obtain ⟨out, hout⟩ := dumpField_string mem fuel data
    refine ⟨out, ?_⟩
    rw [hout, strlen_eq h hsize hfuel]
    rfl

theorem dumpField_past (hf : f ∈ ['i', 'p', 'h', 'c'] ++ ['S']) (h : Holds mem data bytes)
    (hsize : bytes.length < fieldSize f bytes) {done : Dump × Nat}
    (hdone : dumpField mem fuel f data = some done) : data + bytes.length ∈ done.1.reads := by
  have hrange : forall n, bytes.length < n -> data + bytes.length ∈ List.range' data n :=
    fun n hn => List.mem_range'_1.mpr ⟨Nat.le_add_right _ _, Nat.add_lt_add_left hn data⟩
  rcases List.mem_append.mp hf with hf | hf
  · obtain ⟨out, hout⟩ := dumpField_fixed hf mem fuel data bytes
    rw [hout] at hdone
    cases hdone
    exact hrange _ hsize
  · cases List.mem_singleton.mp hf
    obtain ⟨out, hout⟩ := dumpField_string mem fuel data
    rw [hout] at hdone
    obtain ⟨n, hn, rfl⟩ := Option.map_eq_some_iff.mp hdone
    obtain ⟨text, htext, rfl⟩ := Option.map_eq_some_iff.mp hn
    have hnul : 0 ∉ bytes := by
      intro hin
      have hlt : bytes.length < bytes.idxOf 0 + 1 := hsize
      have hidx := List.idxOf_lt_length_iff.mpr hin
      omega
    exact hrange _ (Nat.lt_succ_of_le (cstr_length_ge h hnul htext))

theorem memdump_reads {fmt : List Char}
    (hfmt : forall f, f ∈ fmt -> f ∈ ['i', 'p', 'h', 'c', 'S']) (h : Holds mem data bytes)
    (hfits : fits fmt bytes = true) (hfuel : bytes.length <= fuel) :
    exists dump, memdump mem fuel fmt data = some dump ∧
      forall a, a ∈ dump.reads -> data <= a ∧ a < data + bytes.length := by
  induction fmt generalizing data bytes with
  | nil => exact ⟨⟨[], []⟩, rfl, fun a ha => absurd ha List.not_mem_nil⟩
  | cons f fmt ih =>
    obtain ⟨hsize, hrest⟩ := Bool.and_eq_true_iff.mp hfits
    have hsize := of_decide_eq_true hsize
    obtain ⟨out, hfield⟩ := dumpField_reads (hfmt f List.mem_cons_self) h hsize hfuel
    obtain ⟨dump, hdump, hreads⟩ := ih (fun g hg => hfmt g (List.mem_cons_of_mem f hg))
      (h.drop hsize) hrest (by rw [List.length_drop]; omega)
    refine ⟨_, by unfold memdump; rw [hfield]; simp [hdump]; rfl, fun a ha => ?_⟩
    rw [List.length_drop] at hreads
    rcases List.mem_append.mp ha with hin | hin
    · have hrange := List.mem_range'_1.mp hin
      omega
    · have hin := hreads a hin
      omega

theorem fits_of_reads {fmt : List Char}
    (hfmt : forall f, f ∈ fmt -> f ∈ ['i', 'p', 'h', 'c', 'S']) (h : Holds mem data bytes)
    (hfuel : bytes.length <= fuel) {dump : Dump} (hdump : memdump mem fuel fmt data = some dump)
    (hreads : forall a, a ∈ dump.reads -> a < data + bytes.length) : fits fmt bytes = true := by
  induction fmt generalizing data bytes dump with
  | nil => rfl
  | cons f fmt ih =>
    have hf := hfmt f List.mem_cons_self
    obtain ⟨done, hdone, hdump⟩ := Option.bind_eq_some_iff.mp hdump
    obtain ⟨rest, hrest, heq⟩ := Option.bind_eq_some_iff.mp hdump
    cases heq
    by_cases hsize : fieldSize f bytes <= bytes.length
    · obtain ⟨out, hfield⟩ := dumpField_reads hf h hsize hfuel
      rw [hfield] at hdone
      cases hdone
      have hlen : (bytes.drop (fieldSize f bytes)).length = bytes.length - fieldSize f bytes :=
        List.length_drop
      refine Bool.and_eq_true_iff.mpr ⟨decide_eq_true hsize, ?_⟩
      refine ih (fun g hg => hfmt g (List.mem_cons_of_mem f hg)) (h.drop hsize) (by omega) hrest ?_
      intro a ha
      have hlt := hreads a (List.mem_append_right _ ha)
      omega
    · have hpast := dumpField_past hf h (Nat.not_le.mp hsize) hdone
      exact absurd (hreads _ (List.mem_append_left _ hpast)) (Nat.lt_irrefl _)

/-- `memdump` returns and reads only bytes of the array if and only if every field of the format
ends inside of it. -/
theorem memdump_inside (mem : Bytes) (data : Nat) (pieces : List (List UInt8))
    (hmem : Holds mem data (contents pieces)) (fmt : List Char)
    (hfmt : forall f, f ∈ fmt -> f ∈ ['i', 'p', 'h', 'c', 'S']) (hfuel : DATASIZE <= fuel) :
    (exists dump, memdump mem fuel fmt data = some dump ∧
      forall a, a ∈ dump.reads -> data <= a ∧ a < data + DATASIZE) <->
      fits fmt (contents pieces) = true := by
  have hlen := contents_length pieces
  constructor
  · rintro ⟨dump, hdump, hreads⟩
    refine fits_of_reads hfmt hmem (hlen ▸ hfuel) hdump fun a ha => ?_
    rw [hlen]
    exact (hreads a ha).2
  · intro hfits
    obtain ⟨dump, hdump, hreads⟩ := memdump_reads hfmt hmem hfits (hlen ▸ hfuel)
    exact ⟨dump, hdump, hlen ▸ hreads⟩

theorem memdump_inside_zeros :
    exists dump, memdump (fun _ => 0) DATASIZE ['i', 'S', 'p'] 4096 = some dump ∧
      forall a, a ∈ dump.reads -> 4096 <= a ∧ a < 4096 + DATASIZE := by
  have hmem : Holds (fun _ => 0) 4096 (contents []) := by
    intro i hi
    rw [contents_length] at hi
    exact (List.getElem?_replicate_of_lt hi).symm
  have hfmt : ['i', 'S', 'p'].all (fun f => f ∈ ['i', 'p', 'h', 'c', 'S']) = true := by
    decide
  exact (memdump_inside _ 4096 [] hmem ['i', 'S', 'p']
    (fun f hf => of_decide_eq_true (List.all_eq_true.mp hfmt f hf)) (Nat.le_refl _)).mpr
    (by decide +kernel)

theorem memdump_past :
    exists dump, memdump (fun _ => 0) DATASIZE (List.replicate 65 'p') 4096 = some dump ∧
      4096 + DATASIZE ∈ dump.reads := by
  have hrun : (memdump (fun _ => 0) DATASIZE (List.replicate 65 'p') 4096).map
      (fun dump => decide (4096 + DATASIZE ∈ dump.reads)) = some true := by
    decide +kernel
  obtain ⟨dump, hdump, hin⟩ := Option.map_eq_some_iff.mp hrun
  exact ⟨dump, hdump, of_decide_eq_true hin⟩

end User
end Xv6
