import Xv6.Bio.Cache

/-!
# The log header block

`struct logheader` on disk: a count followed by block numbers, all of them
32-bit little-endian words at the start of the block.
-/

namespace Xv6
namespace Log

open Lib
open Bio

/-- `lh->n`, a signed int: a negative count makes the copy loops empty. -/
def headCount (b : Block) : Nat :=
  if b.getLE 0 4 < 2 ^ 31 then b.getLE 0 4 else 0

@[irreducible] def readHeadBlock (b : Block) : List Nat :=
  (List.range (headCount b)).map (fun i => b.getLE (4 * (i + 1)) 4)

def putEntries (b : Block) (i : Nat) : List Nat -> Block
  | [] => b
  | n :: rest => putEntries (b.setLE (4 * (i + 1)) 4 n) (i + 1) rest

def putHead (b : Block) (lh : List Nat) : Block :=
  putEntries (b.setLE 0 4 lh.length) 0 lh

/-!
## Reading back a written header
-/

theorem putEntries_before (lh : List Nat) (b : Block) (i : Nat) {off : Nat}
    (hoff : off + 4 <= 4 * (i + 1)) :
    (putEntries b i lh).getLE off 4 = b.getLE off 4 := by
  induction lh generalizing b i with
  | nil =>
    rfl
  | cons n rest ih =>
    rw [putEntries, ih _ _ (by omega)]
    exact Bytes.getLE_setLE_disjoint b n (Or.inl hoff)

theorem putEntries_entry (lh : List Nat) (b : Block) (i : Nat)
    (hlt : forall n, n ∈ lh -> n < 2 ^ 32) {j : Nat} (hj : j < lh.length) :
    (putEntries b i lh).getLE (4 * (i + j + 1)) 4 = lh[j] := by
  induction lh generalizing b i j with
  | nil =>
    simp at hj
  | cons n rest ih =>
    cases j with
    | zero =>
      rw [putEntries, putEntries_before rest _ _ (by omega)]
      simp only [Nat.add_zero, List.getElem_cons_zero]
      exact Bytes.getLE_setLE b (hlt n List.mem_cons_self)
    | succ j =>
      have hrest := ih (b.setLE (4 * (i + 1)) 4 n) (i + 1)
        (fun m hm => hlt m (List.mem_cons_of_mem n hm))
        (Nat.lt_of_succ_lt_succ hj)
      rw [putEntries, List.getElem_cons_succ, ← hrest]
      congr 1
      omega

theorem headCount_putHead (b : Block) {lh : List Nat} (hlen : lh.length < 2 ^ 31) :
    headCount (putHead b lh) = lh.length := by
  have hword : (putHead b lh).getLE 0 4 = lh.length := by
    rw [putHead, putEntries_before lh _ _ (by omega)]
    exact Bytes.getLE_setLE b (by omega)
  unfold headCount
  rw [hword, if_pos hlen]

theorem readHeadBlock_putHead (b : Block) {lh : List Nat}
    (hlen : lh.length < 2 ^ 31) (hlt : forall n, n ∈ lh -> n < 2 ^ 32) :
    readHeadBlock (putHead b lh) = lh := by
  apply List.ext_getElem
  · rw [readHeadBlock, List.length_map, List.length_range, headCount_putHead b hlen]
  · intro j hj hj'
    simp only [readHeadBlock, List.getElem_map, List.getElem_range]
    have hentry := putEntries_entry lh (b.setLE 0 4 lh.length) 0 hlt hj'
    rw [Nat.zero_add] at hentry
    exact hentry

end Log
end Xv6
