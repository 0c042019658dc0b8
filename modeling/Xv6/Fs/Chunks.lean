import Xv6.Fs.ReadWrite
import Mathlib.Data.List.Nodup

/-!
# The blocks that one write logs

`filewrite` cuts a write into pieces of at most three blocks, each of them a
transaction.  A piece that does not begin at a block boundary touches four blocks, but
the first of them is in the file already.  A block that is added costs the block and
its bitmap block; the indirect block, its bitmap block and the inode come on top.

Blocks of the inode need not be its own here.  Where a block number from the inode or
from the bitmap is not that of a data block, the model stops.
-/

namespace Xv6
namespace Fs

open Lib Function

namespace Part

variable {b m n off : Nat} {blocks : List Nat} {alpha : Type} {src : Src}

section

variable {sb : Superblock} {i : Fin NINODE} {inum : Nat} {others : Bool} {v : Part}

/-!
## One piece
-/

theorem bounded_bmap_mapped {bn : Nat} (hne : v.blockAt bn ≠ 0) :
    Bounded sb i inum others (bmap sb i bn false : Prog Nat)
      (fun addr v' => addr = v.blockAt bn ∧ v' = v) v := by
  refine ends_bmap_mapped exec_getInode (fun _ => ?_) hne
  by_cases hdata : sb.IsData v.d.ind
  · exact .inl (exec_readBlock hdata)
  · exact .inr ⟨.wild, if_neg hdata, rfl⟩

def chunk : Nat :=
  (MAXOPBLOCKS - 1 - 1 - 2) / 2 * BSIZE

theorem touched_aligned (halign : off % BSIZE = 0) (hm : m <= chunk) :
    touched off m <= 3 := by
  have hchunk : chunk = 3072 := rfl
  unfold touched
  split
  · exact Nat.zero_le _
  · rw [halign, BSIZE_eq]
    omega

theorem bounded_piece (htx : v.ops ≠ none)
    (hfirst : off % BSIZE ≠ 0 -> v.blockAt (off / BSIZE) ≠ 0) (hn : n <= chunk)
    (hmax : off + n <= MAXFILE * BSIZE) :
    Bounded sb i inum others (writeiLoop sb i src n n off 0 : Prog (Nat × Nat))
      (fun _ v' => exists blocks, blocks.length <= 7 ∧ Costs sb v v' blocks) v := by
  by_cases halign : off % BSIZE = 0
  · refine Program.ends_mono (bounded_writeiLoop htx hmax) ?_
    rintro r v' ⟨blocks, hfew, hcosts⟩
    have hthree := touched_aligned halign hn
    have hlen := hfew.length
    exact ⟨blocks, by rw [Nat.sub_zero] at hlen; omega, hcosts⟩
  · have hmapped := hfirst halign
    have hchunk : chunk = 3072 := rfl
    cases hfuel : n with
    | zero =>
      exact Program.ends_ret ⟨[], Nat.zero_le _, costs_of_logs rfl (Logs.same htx rfl rfl)⟩
    | succ k =>
      unfold writeiLoop
      rw [if_pos (Nat.succ_pos k)]
      refine Program.ends_call (bounded_bmap_mapped hmapped) ?_
      rintro addr v1 ⟨rfl, rfl⟩
      rw [if_neg hmapped]
      dsimp only
      generalize hm : min (k + 1 - 0) (BSIZE - off % BSIZE) = m
      generalize src.readable 0 m = bytes
      split
      · refine bounded_writeBlock htx ?_
        have hlogs := Logs.log (v1.store (v1.blockAt (off / BSIZE))
          (Sys.overwrite (v1.data (v1.blockAt (off / BSIZE))) (off % BSIZE) bytes)) htx rfl rfl
          (v1.blockAt (off / BSIZE))
        have hcosts : Costs sb _ _ _ := costs_of_logs (by rfl) hlogs
        refine Program.ends_mono (bounded_writeiLoop hlogs.tx (by omega)) ?_
        rintro r v' ⟨blocks, hfew, hcosts'⟩
        have hlen := hfew.length
        refine ⟨[v1.blockAt (off / BSIZE)] ++ blocks, ?_, hcosts.trans hcosts'⟩
        have hthree : touched (off + m) (k + 1 - (0 + m)) <= 3 := by
          by_cases hrest : k + 1 - (0 + m) = 0
          · unfold touched
            rw [if_pos hrest]
            exact Nat.zero_le _
          · refine touched_aligned ?_ (by omega)
            rw [BSIZE_eq] at hm ⊢
            omega
        rw [List.length_append, List.length_singleton]
        omega
      · refine bounded_writeBlock_unlogged ?_
        exact Program.ends_ret ⟨[], Nat.zero_le _, costs_of_logs rfl (Logs.same htx rfl rfl)⟩

theorem bounded_chunk (htx : v.ops ≠ none) (hno : v.NoHoles) (hoff : off <= v.d.size)
    (hn : n <= chunk) :
    Bounded sb i inum others (writei sb i src off n)
      (fun _ v' => exists blocks, blocks.length <= MAXOPBLOCKS ∧ Logs v v' blocks) v := by
  have hfirst : off % BSIZE ≠ 0 -> v.blockAt (off / BSIZE) ≠ 0 := by
    intro hne
    refine hno _ ?_
    have hdiv := Nat.div_add_mod' off BSIZE
    omega
  have hsize := hno.size_le
  have hchunk : chunk = 3072 := rfl
  have hword : MAXFILE * BSIZE + 3072 < 2 ^ 32 := by decide
  refine Program.ends_mono (bounded_writei (fun blocks => blocks.length <= 7) htx (by omega)
    (by omega) (Nat.zero_le _) (bounded_piece htx hfirst hn)) ?_
  rintro r v' ⟨blocks, hlen, hlogs⟩
  have hind := indBlocks_length sb v'
  refine ⟨_, ?_, hlogs⟩
  rw [List.length_append, List.length_append, List.length_singleton]
  have hmaxop : MAXOPBLOCKS = 10 := rfl
  omega

end

end Part

/-!
## The whole state
-/

section

variable {nproc : Nat} {sb : Superblock} {s s' : Sys nproc} {t : Fin nproc} {i : Fin NINODE}
  {src : Src} {off n : Nat} {r : Int}

theorem writei_fits (hop : s.ops t = some []) (hno : (s.part t i).NoHoles)
    (hoff : off <= (s.itable i).d.size) (hn : n <= Part.chunk)
    (hrun : (writei sb i src off n).run (Sys.exec sb t) s = .ok (r, s')) :
    exists l, s'.ops t = some l ∧ l.Nodup ∧ l.length <= MAXOPBLOCKS := by
  have htx : (s.part t i).ops ≠ none := by
    change s.ops t ≠ none
    rw [hop]
    exact nofun
  have hnil : forall l, (s.part t i).ops = some l -> l = [] :=
    fun l hl => Option.some.inj (hl.symm.trans hop)
  have hbound : Part.Bounded sb i (s.itable i).inum (s.others t) (writei sb i src off n)
      (fun _ v' => exists blocks, blocks.length <= MAXOPBLOCKS ∧
        Part.Logs (s.part t i) v' blocks) (s.part t i) :=
    Part.bounded_chunk htx hno hoff hn
  have hgood : (writei sb i src off n).run (Part.exec sb i (s.itable i).inum (s.others t))
      (s.part t i) ≠ .error .blocked := by
    intro hblocked
    unfold Part.Bounded Program.ends at hbound
    rw [hblocked] at hbound
    cases hbound
  have hput := Sys.run_put hgood
  rw [Sys.put_part, hrun] at hput
  rcases hput with heq | ⟨e, _, he, _⟩
  · rcases map_eq_ok.mp heq.symm with ⟨⟨x, v⟩, hpart, hpair⟩
    cases hpair
    rcases Program.ends_run hbound hpart with ⟨blocks, hlen, hlogs⟩
    have hops : (s.put t i v).ops t = v.ops := update_self _ _ _
    rw [hops]
    cases hl : v.ops with
    | none => exact absurd hl hlogs.tx
    | some l =>
      have hnodup : l.Nodup := by
        refine hlogs.nodup ?_ l hl
        intro l0 hl0
        rw [hnil l0 hl0]
        exact List.nodup_nil
      have hsub : l ⊆ blocks := by
        intro b hb
        rcases hlogs.subset b ⟨l, hl, hb⟩ with ⟨l0, hl0, hmem⟩ | hmem
        · rw [hnil l0 hl0] at hmem
          cases hmem
        · exact hmem
      exact ⟨l, rfl, hnodup, (hnodup.subperm hsub).length_le.trans hlen⟩
  · cases he

/-- A transaction of `filewrite`, from the state in which `writei` is called to the one in which it
has returned. -/
theorem filewrite_chunk_fits (hop : s.ops t = some []) (hno : (s.part t i).NoHoles) {src : Src}
    {off n : Nat} (hoff : off <= (s.itable i).d.size)
    (hn : n <= (MAXOPBLOCKS - 1 - 1 - 2) / 2 * BSIZE) {r : Int}
    (hrun : (writei sb i src off n).run (Sys.exec sb t) s = .ok (r, s')) :
    exists l, s'.ops t = some l ∧ l.Nodup ∧ l.length <= MAXOPBLOCKS :=
  writei_fits hop hno hoff hn hrun

end

/-- A whole piece behind the fourth byte: the first block, three new ones, the bitmap and the inode
are logged. -/
theorem filewrite_chunk_fits_grown :
    exists s' l, (writei tinyDisk 0 (fun _ => some 7) 4 3072).run (Sys.exec tinyDisk 0) oneFile =
        .ok (3072, s') ∧ s'.ops 0 = some l ∧ l.length = 6 ∧ l.Nodup ∧
      l.length <= MAXOPBLOCKS := by
  have hcheck : passes ((writei tinyDisk 0 (fun _ => some 7) 4 3072).run (Sys.exec tinyDisk 0)
      oneFile) (fun r => decide (r.1 = 3072 ∧ (r.2.ops 0).map List.length = some 6)) = true := by
    decide +kernel
  obtain ⟨⟨r, s'⟩, hrun, hcheck⟩ := passes_eq_true.mp hcheck
  rcases filewrite_chunk_fits rfl oneFile_noHoles (by decide) (by decide) hrun with
    ⟨l, hops, hnodup, hlen⟩
  rcases of_decide_eq_true hcheck with ⟨hr, hsix⟩
  rw [hops] at hsix
  cases hr
  exact ⟨s', l, hrun, hops, Option.some.inj hsix, hnodup, hlen⟩

end Fs
end Xv6
