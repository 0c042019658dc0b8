import Xv6.Lib.Scan
import Xv6.Vm.Bytes

/-!
# Strings of the user

`copyinstr` copies a string page by page; it reads the same bytes as a scan of user
memory, byte by byte, for the first zero.
-/

namespace Xv6
namespace Vm

open Lib

/-!
## The code
-/

namespace Ram

def bytes (x : Ram) (pg : Page) (off n : Nat) : List UInt8 :=
  (List.range n).map fun j => x.data pg (off + j)

/-- The loop of `copyinstr`: `got_null` and the bytes that reach `dst`. -/
def copyinstrLoop (pagetable : Page) (x : Ram) : Nat -> Nat -> Nat ->
    Except Panic (Bool × List UInt8)
  | 0, _, _ => return (false, [])
  | turns + 1, srcva, len =>
    if len = 0 then
      return (false, [])
    else do
      let va0 := pgrounddown srcva
      match ← walkaddr x.kmem pagetable va0 with
      | none => return (false, [])
      | some pa0 =>
        let n := min (PGSIZE - (srcva - va0)) len
        let chunk := x.bytes pa0 (srcva - va0) n
        if 0 ∈ chunk then
          return (true, chunk.takeWhile (· ≠ 0) ++ [0])
        else do
          let (gotNull, rest) ← copyinstrLoop pagetable x turns ((va0 + PGSIZE) % 2 ^ 64)
            (len - n)
          return (gotNull, chunk ++ rest)

def copyinstr (x : Ram) (pagetable : Page) (srcva len : Nat) : Except Panic (Bool × List UInt8) :=
  copyinstrLoop pagetable x len srcva len

/-- The value returned, which is `strlen(buf)` or -1, and the bytes in `buf`. -/
def fetchstr (x : Ram) (p : MyProc) (addr len : Nat) : Except Panic (Int × List UInt8) := do
  let (gotNull, buf) ← x.copyinstr p.pagetable addr len
  return (if gotNull then ((buf.takeWhile (· ≠ 0)).length : Int) else -1, buf)

/-!
## Bytes of the user
-/

def userByte (x : Ram) (pagetable : Page) (va : Nat) : Option UInt8 :=
  let e := leafAt x.kmem pagetable (va / PGSIZE)
  if va < MAXVA ∧ e.v = true ∧ e.u = true then
    some (x.data e.ppn (va % PGSIZE))
  else
    none

end Ram

section

variable {x : Ram} {r : Page}

theorem bytes_length (x : Ram) (pg : Page) (off n : Nat) : (x.bytes pg off n).length = n := by
  unfold Ram.bytes
  rw [List.length_map, List.length_range]

theorem lt_MAXVA_iff {a : Nat} : a < MAXVA <-> a / PGSIZE * PGSIZE < MAXVA := by
  rw [MAXVA_eq]
  unfold PGSIZE
  omega

theorem userByte_chunk {a n : Nat} (hmax : a / PGSIZE * PGSIZE < MAXVA)
    (hvalid : (leafAt x.kmem r (a / PGSIZE)).v = true)
    (huser : (leafAt x.kmem r (a / PGSIZE)).u = true)
    (hn : n <= PGSIZE - (a - a / PGSIZE * PGSIZE)) :
    forall i, i < n -> x.userByte r (a + i) =
      (x.bytes (leafAt x.kmem r (a / PGSIZE)).ppn (a - a / PGSIZE * PGSIZE) n)[i]? := by
  intro i hi
  have hpage : (a + i) / PGSIZE = a / PGSIZE := by
    unfold PGSIZE at hn ⊢
    omega
  have hoff : (a + i) % PGSIZE = a - a / PGSIZE * PGSIZE + i := by
    unfold PGSIZE at hn ⊢
    omega
  have hva : a + i < MAXVA := by
    rw [lt_MAXVA_iff, hpage]
    exact hmax
  unfold Ram.userByte Ram.bytes
  dsimp only
  rw [hpage, if_pos ⟨hva, hvalid, huser⟩, hoff, List.getElem?_map, List.getElem?_range hi]
  rfl

theorem copyinstrLoop_scan {turns : Nat} (a len : Nat) (hlen : len <= turns) :
    Ram.copyinstrLoop r x turns a len = .ok (scan (x.userByte r) 0 a len) := by
  induction turns generalizing a len with
  | zero =>
    rw [Nat.le_zero.mp hlen]
    rfl
  | succ turns ih =>
    unfold Ram.copyinstrLoop
    by_cases hzero : len = 0
    · rw [if_pos hzero, hzero]
      rfl
    rw [if_neg hzero]
    simp only [walkaddr_eq, (pgrounddown_eq a).1, (page_addr _).2, bind, Except.bind]
    by_cases hok : a / PGSIZE * PGSIZE < MAXVA ∧ (leafAt x.kmem r (a / PGSIZE)).v = true ∧
        (leafAt x.kmem r (a / PGSIZE)).u = true
    · rw [if_pos hok]
      dsimp only
      generalize hn : min (PGSIZE - (a - a / PGSIZE * PGSIZE)) len = n
      have hchunk := userByte_chunk hok.1 hok.2.1 hok.2.2
        (n := n) (by rw [← hn]; exact Nat.min_le_left _ _)
      have hle : n <= len := by
        rw [← hn]
        exact Nat.min_le_right _ _
      have hpos : 0 < n := by
        have hoff := Nat.mod_lt a (show 0 < PGSIZE by decide)
        rw [← hn]
        unfold PGSIZE at hoff ⊢
        omega
      have hlength := bytes_length x (leafAt x.kmem r (a / PGSIZE)).ppn
        (a - a / PGSIZE * PGSIZE) n
      generalize hbytes : x.bytes (leafAt x.kmem r (a / PGSIZE)).ppn
        (a - a / PGSIZE * PGSIZE) n = chunk at hchunk hlength
      rw [← hlength] at hchunk
      by_cases hmark : 0 ∈ chunk
      · rw [if_pos hmark, scan_found hchunk hmark (by omega)]
        rfl
      · have hsplit : len = chunk.length + (len - n) := by
          omega
        have hnext : scan (x.userByte r) 0 ((a / PGSIZE * PGSIZE + PGSIZE) % 2 ^ 64) (len - n) =
            scan (x.userByte r) 0 (a + chunk.length) (len - n) := by
          by_cases hend : len - n = 0
          · rw [hend]
            unfold scan
            rfl
          · have hsmall : MAXVA + PGSIZE < 2 ^ 64 := by
              decide
            rw [Nat.mod_eq_of_lt (Nat.lt_trans (Nat.add_lt_add_right hok.1 _) hsmall), hlength,
              ← hn]
            congr 1
            unfold PGSIZE at hn ⊢
            omega
        rw [if_neg hmark, ih _ _ (by omega)]
        conv => rhs; rw [hsplit, scan_append hchunk hmark, ← hnext]
        rfl
    · have hnone : x.userByte r a = none := by
        unfold Ram.userByte
        dsimp only
        rw [if_neg]
        intro hall
        exact hok ⟨lt_MAXVA_iff.mp hall.1, hall.2⟩
      rw [if_neg hok, scan_none hnone]
      rfl

theorem copyinstr_scan (x : Ram) (r : Page) (a len : Nat) :
    x.copyinstr r a len = .ok (scan (x.userByte r) 0 a len) :=
  copyinstrLoop_scan a len (Nat.le_refl len)

theorem fetchstr_scan (x : Ram) (r : Page) (sz a len : Nat) :
    x.fetchstr { pagetable := r, sz := sz } a len =
      .ok (if (scan (x.userByte r) 0 a len).1 = true then
          (((scan (x.userByte r) 0 a len).2.takeWhile (· ≠ 0)).length : Int) else -1,
        (scan (x.userByte r) 0 a len).2) := by
  unfold Ram.fetchstr
  rw [copyinstr_scan]
  rfl

/-!
## Exactly the string
-/

theorem copyinstr_exact (x : Ram) (r : Page) (srcva len : Nat) :
    exists gotNull dst, x.copyinstr r srcva len = .ok (gotNull, dst) ∧
      dst.length <= len ∧
      (gotNull = true <-> exists k, k < len ∧ Terminated (x.userByte r) 0 srcva k) ∧
      ((forall k, k < len -> (forall i, i < k -> x.userByte r (srcva + i) ≠ some 0) ->
          x.userByte r (srcva + k) ≠ none) ->
        (gotNull = true <-> exists k, k < len ∧ x.userByte r (srcva + k) = some 0)) ∧
      (forall k, k < len -> Terminated (x.userByte r) 0 srcva k ->
        dst.map some = (List.range (k + 1)).map fun i => x.userByte r (srcva + i)) ∧
      (forall k, k < len -> (forall i, i < k -> x.userByte r (srcva + i) ≠ some 0) ->
        x.userByte r (srcva + k) = none -> gotNull = false) ∧
      forall sz, exists ret, x.fetchstr { pagetable := r, sz := sz } srcva len = .ok (ret, dst) ∧
        (gotNull = false -> ret = -1) ∧
        forall k : Nat, k < len -> Terminated (x.userByte r) 0 srcva k -> ret = k := by
  refine ⟨_, _, copyinstr_scan x r srcva len, scan_length_le _ _ _ _, scan_true_iff, ?_, ?_, ?_, ?_⟩
  · intro hmapped
    rw [scan_true_iff]
    constructor
    · rintro ⟨k, hk, h⟩
      exact ⟨k, hk, h.mark⟩
    · rintro ⟨k, hk, hzero⟩
      exact Terminated.exists_of_mark hk hzero hmapped
  · intro k hk h
    exact (h.scan hk).2
  · intro k _ hbefore hnone
    exact scan_missing hbefore hnone
  · intro sz
    refine ⟨_, fetchstr_scan x r sz srcva len, ?_, ?_⟩
    · intro hno
      rw [hno]
      rfl
    · intro k hk h
      rw [if_pos (h.scan hk).1, h.length_takeWhile hk]

end

end Vm
end Xv6
