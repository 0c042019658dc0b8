import Xv6.Fs.Contents

/-!
# The blocks that a write logs

A block that is written to is logged, and one that is added to the file costs its
bitmap block besides.  The indirect block, its bitmap block and the inode come on top.

Blocks of the inode need not be its own here.  Where a block number from the inode or
from the bitmap is not that of a data block, the model stops.
-/

namespace Xv6
namespace Fs

open Lib Function

def Superblock.bitmapBlocks (sb : Superblock) : List Nat :=
  (List.range ((sb.size + BPB - 1) / BPB)).map (· + sb.bmapstart)

theorem bblock_mem {sb : Superblock} {b : Nat} (h : b < sb.size) :
    sb.bblock b ∈ sb.bitmapBlocks := by
  refine List.mem_map.mpr ⟨b / BPB, List.mem_range.mpr ?_, rfl⟩
  have hpos : 0 < BPB := by decide
  have hlt := Nat.lt_div_mul_add (a := sb.size + BPB - 1) hpos
  rw [Nat.div_lt_iff_lt_mul hpos]
  omega

namespace Part

variable {b k l m n off : Nat} {blocks blocks' : List Nat} {alpha : Type} {src : Src}

/-- The blocks that `k` blocks of a file cost: besides them, at most as many bitmap blocks. -/
structure Few (sb : Superblock) (k : Nat) (blocks : List Nat) : Prop where
  length : blocks.length <= 2 * k
  data : (blocks.filter (· ∉ sb.bitmapBlocks)).length <= k

namespace Few

variable {sb : Superblock}

theorem nil (sb : Superblock) (k : Nat) : Few sb k [] :=
  ⟨Nat.zero_le _, Nat.zero_le _⟩

theorem single (sb : Superblock) (b : Nat) : Few sb 1 [b] :=
  ⟨by simp, List.length_filter_le _ _⟩

theorem pair (h : b < sb.size) : Few sb 1 [sb.bblock b, b] := by
  refine ⟨Nat.le_refl _, ?_⟩
  have hbit : decide (sb.bblock b ∉ sb.bitmapBlocks) = false :=
    decide_eq_false (not_not_intro (bblock_mem h))
  rw [List.filter_cons_of_neg (by rw [hbit]; exact Bool.false_ne_true)]
  exact List.length_filter_le _ _

theorem append (h : Few sb k blocks) (h' : Few sb l blocks') :
    Few sb (k + l) (blocks ++ blocks') := by
  have hlen := h.length
  have hlen' := h'.length
  have hdata := h.data
  have hdata' := h'.data
  constructor
  · rw [List.length_append]
    omega
  · rw [List.filter_append, List.length_append]
    omega

theorem mono (h : Few sb k blocks) (hle : k <= l) : Few sb l blocks :=
  ⟨h.length.trans (Nat.mul_le_mul_left 2 hle), h.data.trans hle⟩

theorem header {v v' : Part} (h : Few sb k blocks) (hlogs : Logs v v' blocks) :
    v'.lh.length <= v.lh.length + (k + min k sb.bitmapBlocks.length) := by
  rcases hlogs.header with ⟨new, heq, hnodup, hsub, _⟩
  have hall := (hnodup.subperm hsub).length_le
  have hdata : (new.filter (· ∉ sb.bitmapBlocks)).length <=
      (blocks.filter (· ∉ sb.bitmapBlocks)).length :=
    ((hnodup.filter _).subperm (List.filter_subset _ hsub)).length_le
  have hbits : (new.filter fun c => !decide (c ∉ sb.bitmapBlocks)).length <=
      sb.bitmapBlocks.length := by
    refine ((hnodup.filter _).subperm ?_).length_le
    intro c hc
    simpa using List.of_mem_filter hc
  have hsplit := List.length_eq_length_filter_add (l := new) (· ∉ sb.bitmapBlocks)
  have hlen := h.length
  have hfew := h.data
  rw [heq, List.length_append]
  omega

end Few

def indBlocks (sb : Superblock) (v : Part) : List Nat :=
  if v.d.ind = 0 then [] else [sb.bblock v.d.ind, v.d.ind]

theorem indBlocks_length (sb : Superblock) (v : Part) : (v.indBlocks sb).length <= 2 := by
  unfold indBlocks
  split
  · exact Nat.zero_le _
  · exact Nat.le_refl _

/-- What a call has logged: `blocks`, and on account of the indirect block. -/
structure Costs (sb : Superblock) (v v' : Part) (blocks : List Nat) : Prop where
  ind : v.d.ind ≠ 0 -> v'.d.ind = v.d.ind
  logs : Logs v v' (blocks ++ v'.indBlocks sb)

theorem Costs.trans {sb : Superblock} {v v' v'' : Part} {blocks' : List Nat}
    (h : Costs sb v v' blocks) (h' : Costs sb v' v'' blocks') :
    Costs sb v v'' (blocks ++ blocks') := by
  constructor
  · intro hne
    have hmid := h.ind hne
    rw [← hmid] at hne ⊢
    exact h'.ind hne
  · refine (h.logs.trans h'.logs).mono ?_
    have hind : v'.indBlocks sb ⊆ v''.indBlocks sb := by
      unfold indBlocks
      split
      · exact List.nil_subset _
      · next hne =>
          rw [h'.ind hne, if_neg hne]
          exact List.Subset.refl _
    intro b hb
    simp only [List.mem_append] at hb ⊢
    rcases hb with (hb | hb) | hb | hb
    · exact .inl (.inl hb)
    · exact .inr (hind hb)
    · exact .inl (.inr hb)
    · exact .inr hb

section

variable {sb : Superblock} {i : Fin NINODE} {inum : Nat} {others : Bool} {v : Part}

/-- The program ends with `Q`, or it comes to a block that is not a data block. -/
def Bounded (sb : Superblock) (i : Fin NINODE) (inum : Nat) (others : Bool) {alpha : Type}
    (p : Prog alpha) (Q : alpha -> Part -> Prop) (v : Part) : Prop :=
  p.ends (exec sb i inum others) (fun e => e = .wild) Q v

variable {Q : alpha -> Part -> Prop}

theorem bounded_readBlock {f : Bytes -> Prog alpha}
    (hrest : Bounded sb i inum others (f (v.data b)) Q v) :
    Bounded sb i inum others (perform (.readBlock b) >>= f) Q v := by
  by_cases hdata : sb.IsData b
  · exact Program.ends_act (exec_readBlock hdata) hrest
  · exact Program.ends_stop (if_neg hdata) rfl

theorem bounded_writeBlock {bytes : List UInt8} {f : Unit -> Prog alpha} (htx : v.ops ≠ none)
    (hrest : Bounded sb i inum others (f ())
      Q ((v.store b (Sys.overwrite (v.data b) off bytes)).log b)) :
    Bounded sb i inum others (perform (.writeBlock b off bytes true) >>= f) Q v := by
  by_cases hdata : sb.IsData b
  · exact Program.ends_act (exec_writeBlock htx hdata off bytes) hrest
  · exact Program.ends_stop (if_neg hdata) rfl

theorem bounded_writeBlock_unlogged {bytes : List UInt8} {f : Unit -> Prog alpha}
    (hrest : Bounded sb i inum others (f ())
      Q (v.store b (Sys.overwrite (v.data b) off bytes))) :
    Bounded sb i inum others (perform (.writeBlock b off bytes false) >>= f) Q v := by
  by_cases hdata : sb.IsData b
  · exact Program.ends_act (exec_writeBlock_unlogged hdata off bytes) hrest
  · exact Program.ends_stop (if_neg hdata) rfl

theorem bounded_ballocLoop {k : Nat} (htx : v.ops ≠ none) :
    Bounded sb i inum others (ballocLoop k n : Prog Nat)
      (fun b v' => (b = 0 ∧ v' = v) ∨ (b < sb.size ∧ v' = v.alloc sb b)) v := by
  induction n generalizing k with
  | zero => exact Program.ends_ret (.inl ⟨rfl, rfl⟩)
  | succ n ih =>
    unfold ballocLoop
    cases hfind : (List.range' (k * BPB) BPB).find? fun b =>
        b < sb.size ∧ v.bitmap b = false with
    | some b =>
      have hfound := List.find?_some hfind
      have hb : b < sb.size ∧ v.bitmap b = false := of_decide_eq_true hfound
      refine Program.ends_act (exec_ballocScan htx hfind) ?_
      by_cases hdata : sb.IsData b
      · exact Program.ends_act (exec_bzero_marked htx hdata) (Program.ends_ret (.inr ⟨hb.1, rfl⟩))
      · exact Program.ends_stop (if_neg hdata) rfl
    | none =>
      exact Program.ends_act (exec_ballocScan_none hfind) ih

theorem alloc_logs (htx : v.ops ≠ none) (b : Nat) : Logs v (v.alloc sb b) [sb.bblock b, b] := by
  have hmark := Logs.log (v.mark b true) htx rfl rfl (sb.bblock b)
  exact hmark.trans
    (Logs.log (((v.mark b true).log (sb.bblock b)).store b fun _ => 0) hmark.tx rfl rfl b)

theorem bounded_balloc (htx : v.ops ≠ none) :
    Bounded sb i inum others (balloc sb : Prog Nat)
      (fun b v' => exists blocks, Few sb 1 blocks ∧ v'.d = v.d ∧ Logs v v' blocks ∧
        (b = 0 ∨ blocks = [sb.bblock b, b])) v := by
  refine Program.ends_mono (bounded_ballocLoop htx) ?_
  rintro b v' (⟨rfl, rfl⟩ | ⟨hb, rfl⟩)
  · exact ⟨[], .nil sb 1, rfl, Logs.same htx rfl rfl, .inl rfl⟩
  · exact ⟨[sb.bblock b, b], .pair hb, rfl, alloc_logs htx b, .inr rfl⟩

/-!
## `bmap`
-/

structure Found (sb : Superblock) (v : Part) (addr : Nat) (v' : Part) (blocks : List Nat) :
    Prop where
  few : Few sb 1 blocks
  costs : Costs sb v v' blocks
  addr : addr ≠ 0 -> blocks = [] ∨ addr ∈ blocks

theorem costs_of_logs {v' : Part} (hind : v'.d.ind = v.d.ind)
    (h : Logs v v' blocks) : Costs sb v v' blocks :=
  ⟨fun _ => hind, h.mono (List.subset_append_left _ _)⟩

theorem Logs.setAddr {v' : Part} (h : Logs v v' blocks) (k : Fin (NDIRECT + 1)) (b : Nat) :
    Logs v (v'.setAddr k b) blocks := by
  have hsame : Logs v' (v'.setAddr k b) [] := Logs.same h.tx rfl rfl
  rw [← List.append_nil blocks]
  exact h.trans hsame

theorem found_nothing (htx : v.ops ≠ none) (addr : Nat) : Found sb v addr v [] :=
  ⟨.nil sb 1, costs_of_logs rfl (Logs.same htx rfl rfl), fun _ => .inl rfl⟩

theorem bounded_grow {f : Nat -> Prog Nat} (htx : v.ops ≠ none)
    (hfresh : forall b v1, b ≠ 0 -> v1.d = v.d -> Few sb 1 [sb.bblock b, b] ->
      Logs v v1 [sb.bblock b, b] ->
      Bounded sb i inum others (f b) (fun addr v' => exists blocks, Found sb v addr v' blocks) v1) :
    Bounded sb i inum others (do
      perform (.grow false)
      let addr ← balloc sb
      if addr = 0 then pure 0 else f addr)
      (fun addr v' => exists blocks, Found sb v addr v' blocks) v := by
  refine Program.ends_act exec_grow ?_
  refine Program.ends_call (bounded_balloc htx) ?_
  rintro b v1 ⟨blocks, hfew, hd, hlogs, hb⟩
  split
  · exact Program.ends_ret ⟨blocks, hfew, costs_of_logs (congrArg Dinode.ind hd) hlogs,
      fun hne => absurd rfl hne⟩
  · next hne =>
      cases hb.resolve_left hne
      exact hfresh b v1 hne hd hfew hlogs

theorem bounded_bmapIndirect {j : Nat} (htx : v.ops ≠ none) (hind : v.d.ind ≠ 0) :
    Bounded sb i inum others (bmap.bmapIndirect sb false v.d.ind j : Prog Nat)
      (fun addr v' => exists blocks, Found sb v addr v' blocks) v := by
  unfold bmap.bmapIndirect
  refine bounded_readBlock ?_
  split
  · refine bounded_grow htx fun b v1 hne hd hfew hlogs => ?_
    have hsame : v1.d.ind = v.d.ind := congrArg Dinode.ind hd
    refine bounded_writeBlock hlogs.tx ?_
    refine Program.ends_ret ⟨_, hfew, ⟨fun _ => hsame, ?_⟩, fun _ => .inr (by simp)⟩
    have hentry := Logs.log (v1.store v.d.ind
      (Sys.overwrite (v1.data v.d.ind) (4 * j) (toBytes 4 b))) hlogs.tx rfl rfl v.d.ind
    refine (hlogs.trans hentry).mono ?_
    change [sb.bblock b, b] ++ [v.d.ind] ⊆ [sb.bblock b, b] ++
      if v1.d.ind = 0 then [] else [sb.bblock v1.d.ind, v1.d.ind]
    rw [hsame, if_neg hind]
    intro c hc
    rcases List.mem_append.mp hc with hc | hc
    · exact List.mem_append_left _ hc
    · rw [List.mem_singleton.mp hc]
      exact List.mem_append_right _ (by simp)
  · exact Program.ends_ret ⟨[], found_nothing htx _⟩

theorem bounded_bmap {bn : Nat} (htx : v.ops ≠ none) (hbn : bn < MAXFILE) :
    Bounded sb i inum others (bmap sb i bn false : Prog Nat)
      (fun addr v' => exists blocks, Found sb v addr v' blocks) v := by
  unfold bmap
  split
  · next hdirect =>
      refine Program.ends_act exec_getInode ?_
      split
      · refine bounded_grow htx fun b v1 hne hd hfew hlogs => ?_
        refine Program.ends_act (exec_update _) ?_
        have hlast : Fin.last NDIRECT ≠ ⟨bn, Nat.lt_succ_of_lt hdirect⟩ := by
          intro heq
          exact absurd (congrArg Fin.val heq) (Nat.ne_of_gt hdirect)
        refine Program.ends_ret
          ⟨_, hfew, costs_of_logs ?_ (hlogs.setAddr _ b), fun _ => .inr (by simp)⟩
        rw [← congrArg Dinode.ind hd]
        exact update_of_ne hlast _ _
      · exact Program.ends_ret ⟨[], found_nothing htx _⟩
  · next hdirect =>
      have hj : bn - NDIRECT < NINDIRECT := by
        rw [MAXFILE] at hbn
        omega
      rw [if_pos hj]
      refine Program.ends_act exec_getInode ?_
      split
      · next hzero =>
          refine bounded_grow htx fun b v1 hne hd hfew hlogs => ?_
          refine Program.ends_act (exec_update _) ?_
          change Program.ends _ _ _ _ (v1.setAddr (Fin.last NDIRECT) b)
          have hind : (v1.setAddr (Fin.last NDIRECT) b).d.ind = b := by
            change update v1.d.addrs (Fin.last NDIRECT) b (Fin.last NDIRECT) = b
            exact update_self _ _ _
          have hset := hlogs.setAddr (Fin.last NDIRECT) b
          generalize v1.setAddr (Fin.last NDIRECT) b = v2 at hind hset
          have hcosts : Costs sb v v2 [] := by
            refine ⟨fun hold => absurd hzero hold, ?_⟩
            unfold indBlocks
            rw [hind, if_neg hne]
            exact hset
          have hrest : Bounded sb i inum others
              (bmap.bmapIndirect sb false v2.d.ind (bn - NDIRECT) : Prog Nat)
              (fun addr v' => exists blocks, Found sb v2 addr v' blocks) v2 :=
            bounded_bmapIndirect hset.tx (by rw [hind]; exact hne)
          rw [hind] at hrest
          refine Program.ends_mono hrest ?_
          rintro addr v3 ⟨blocks', hfound⟩
          exact ⟨blocks', hfound.few, hcosts.trans hfound.costs, hfound.addr⟩
      · next hne => exact bounded_bmapIndirect htx hne

/-!
## The loop of `writei`
-/

def touched (off m : Nat) : Nat :=
  if m = 0 then 0 else (off % BSIZE + m + (BSIZE - 1)) / BSIZE

theorem touched_pos (h : 0 < m) : 1 <= touched off m := by
  unfold touched
  rw [if_neg (Nat.ne_of_gt h), BSIZE_eq]
  omega

theorem touched_split {k : Nat} (h : 0 < m) (hk : k = min m (BSIZE - off % BSIZE)) :
    1 + touched (off + k) (m - k) <= touched off m := by
  unfold touched
  rw [if_neg (Nat.ne_of_gt h)]
  rw [BSIZE_eq] at hk ⊢
  split
  · omega
  · have halign : (off + k) % 1024 = 0 := by omega
    rw [halign]
    omega

theorem Found.write {addr : Nat} {v1 v2 : Part}
    (h : Found sb v addr v1 blocks) (hne : addr ≠ 0) (hlogs : Logs v1 v2 [addr])
    (hd : v2.d = v1.d) :
    exists blocks', Few sb 1 blocks' ∧ Costs sb v v2 blocks' := by
  have hstep : Costs sb v1 v2 [addr] := costs_of_logs (congrArg Dinode.ind hd) hlogs
  rcases h.addr hne with rfl | hmem
  · exact ⟨[addr], .single sb addr, h.costs.trans hstep⟩
  · refine ⟨blocks, h.few, (h.costs.trans hstep).ind, ?_⟩
    refine (h.costs.trans hstep).logs.mono ?_
    intro c hc
    simp only [List.mem_append, List.mem_singleton] at hc ⊢
    rcases hc with (hc | rfl) | hc
    · exact .inl hc
    · exact .inl hmem
    · exact .inr hc

theorem bounded_writeiLoop {fuel tot : Nat} (htx : v.ops ≠ none)
    (hmax : off + (n - tot) <= MAXFILE * BSIZE) :
    Bounded sb i inum others (writeiLoop sb i src n fuel off tot : Prog (Nat × Nat))
      (fun _ v' => exists blocks, Few sb (touched off (n - tot)) blocks ∧
        Costs sb v v' blocks) v := by
  induction fuel generalizing off tot v with
  | zero =>
    exact Program.ends_ret ⟨[], .nil sb _, costs_of_logs rfl (Logs.same htx rfl rfl)⟩
  | succ fuel ih =>
    unfold writeiLoop
    split
    · next hlt =>
        have hbn : off / BSIZE < MAXFILE := by
          rw [Nat.div_lt_iff_lt_mul (by decide)]
          omega
        have hone : 1 <= touched off (n - tot) := touched_pos (by omega)
        refine Program.ends_call (bounded_bmap htx hbn) ?_
        rintro addr v1 ⟨blocks, hfound⟩
        split
        · exact Program.ends_ret ⟨blocks, hfound.few.mono hone, hfound.costs⟩
        · next hne =>
            dsimp only
            generalize hm : min (n - tot) (BSIZE - off % BSIZE) = m
            generalize src.readable tot m = chunk
            split
            · refine bounded_writeBlock hfound.costs.logs.tx ?_
              have hlogs := Logs.log (v1.store addr
                (Sys.overwrite (v1.data addr) (off % BSIZE) chunk))
                hfound.costs.logs.tx rfl rfl addr
              rcases hfound.write hne hlogs rfl with ⟨blocks', hfew', hcosts⟩
              have hsplit := touched_split (m := n - tot) (by omega) hm.symm
              refine Program.ends_mono (ih hlogs.tx (by omega)) ?_
              rintro r v3 ⟨rest, hrest, hcosts'⟩
              have hleft : n - tot - m = n - (tot + m) := by omega
              rw [hleft] at hsplit
              exact ⟨blocks' ++ rest, (hfew'.append hrest).mono hsplit, hcosts.trans hcosts'⟩
            · refine bounded_writeBlock_unlogged ?_
              refine Program.ends_ret ⟨blocks, hfound.few.mono hone, hfound.costs.ind, ?_⟩
              have hsame : Logs v1 (v1.store addr
                  (Sys.overwrite (v1.data addr) (off % BSIZE) chunk)) [] :=
                Logs.same hfound.costs.logs.tx rfl rfl
              have hboth := hfound.costs.logs.trans hsame
              rw [List.append_nil] at hboth
              exact hboth
    · exact Program.ends_ret ⟨[], .nil sb _, costs_of_logs rfl (Logs.same htx rfl rfl)⟩

/-!
## `writei`
-/

theorem bounded_writei (few : List Nat -> Prop) (htx : v.ops ≠ none) (hoff : off < 2 ^ 32)
    (hn : n < 2 ^ 32) (hnil : few [])
    (hloop : off + n <= MAXFILE * BSIZE -> Bounded sb i inum others
      (writeiLoop sb i src n n off 0)
      (fun _ v' => exists blocks, few blocks ∧ Costs sb v v' blocks) v) :
    Bounded sb i inum others (writei sb i src off n)
      (fun _ v' => exists blocks, few blocks ∧
        Logs v v' (blocks ++ v'.indBlocks sb ++ [sb.iblock inum])) v := by
  have hnothing : Logs v v ([] ++ v.indBlocks sb ++ [sb.iblock inum]) :=
    (Logs.same htx rfl rfl).mono (List.nil_subset _)
  unfold writei
  refine Program.ends_act exec_getInode ?_
  split
  · exact Program.ends_ret ⟨[], hnil, hnothing⟩
  next hgood =>
  split
  · exact Program.ends_ret ⟨[], hnil, hnothing⟩
  next hmax =>
  have hle : off + n <= MAXFILE * BSIZE := by
    unfold wrap32 at hgood hmax
    omega
  refine Program.ends_call (hloop hle) ?_
  rintro ⟨tot, off'⟩ v1 ⟨blocks, hfew, hcosts⟩
  have hend : forall v2 : Part, v2.ops = v1.ops -> v2.lh = v1.lh ->
      Logs v (v2.log (sb.iblock inum)) (blocks ++ v1.indBlocks sb ++ [sb.iblock inum]) :=
    fun v2 hops hlh => hcosts.logs.trans (Logs.log v2 hcosts.logs.tx hops hlh _)
  refine Program.ends_act exec_getInode ?_
  split
  · refine Program.ends_act (exec_update _) ?_
    refine Program.ends_act (exec_iupdate hcosts.logs.tx) ?_
    exact Program.ends_ret ⟨blocks, hfew, hend { v1 with d := _, copy := _ } rfl rfl⟩
  · refine Program.ends_act (exec_iupdate hcosts.logs.tx) ?_
    exact Program.ends_ret ⟨blocks, hfew, hend { v1 with copy := v1.d } rfl rfl⟩

end

/-- The blocks that the loop of a write of `n` bytes at `off` may add to the header: the data blocks
and the indirect block, and a bitmap block for each as far as there are so many. -/
def cost (sb : Superblock) (off n : Nat) : Nat :=
  touched off n + 1 + min (touched off n + 1) sb.bitmapBlocks.length

theorem writeiLoop_header {sb : Superblock} {i : Fin NINODE} {inum : Nat} {others : Bool}
    {v v' : Part} {r : Nat × Nat} (htx : v.ops ≠ none) (hmax : off + n <= MAXFILE * BSIZE)
    (h' : v'.Owned sb)
    (hrun : (writeiLoop sb i src n n off 0).run (exec sb i inum others) v = .ok (r, v')) :
    v'.lh.length <= v.lh.length + cost sb off n := by
  have hbound : Bounded sb i inum others (writeiLoop sb i src n n off 0) _ v :=
    bounded_writeiLoop htx hmax
  rcases Program.ends_run hbound hrun with ⟨blocks, hfew, hcosts⟩
  have hind : Few sb 1 (v'.indBlocks sb) := by
    unfold indBlocks
    split
    · exact .nil sb 1
    · next hne => exact .pair (h'.data _ (ind_taken hne)).2
  exact (hfew.append hind).header hcosts.logs

end Part
end Fs
end Xv6
