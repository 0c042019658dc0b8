import Xv6.Fs.Part
import Mathlib.Data.List.Nodup

/-!
# The blocks of a locked inode

What `balloc` and `bmap` do to the part of the state behind an inode whose blocks are
its own.  A block that `bmap` adds to the inode was free before and fills an empty
slot.  All other blocks keep their contents.
-/

namespace Xv6
namespace Fs

open Lib Function

variable {b k bn : Nat} {v : Part} {sb : Superblock}

structure Superblock.Valid (sb : Superblock) : Prop where
  data : sb.nblocks < sb.size
  size : sb.size <= 2 ^ 32

theorem Superblock.Valid.ne_zero (h : sb.Valid) (hb : sb.IsData b) :
    b ≠ 0 := by
  have hdata := h.data
  have hlow := hb.1
  omega

namespace Part

def slots (v : Part) : Slot -> Nat :=
  v.d.slots v.data

def taken (v : Part) : Set Nat :=
  v.d.taken v.data

def blockAt (v : Part) (bn : Nat) : Nat :=
  v.d.blockAt v.data bn

def byte (v : Part) (o : Nat) : UInt8 :=
  v.d.byte v.data o

/-- The blocks of the inode are data blocks in use, each of them in one place, and what is not a
data block is in use. -/
structure Owned (sb : Superblock) (v : Part) : Prop where
  tx : v.ops ≠ none
  apart : Apart v.slots
  data : forall b, b ∈ v.taken -> sb.IsData b
  marked : forall b, b ∈ v.taken -> v.bitmap b = true
  free : forall b, b < sb.size -> v.bitmap b = false -> sb.IsData b

def Full (sb : Superblock) (v : Part) : Prop :=
  forall b, b < sb.size -> v.bitmap b = true

def Logged (v : Part) (b : Nat) : Prop :=
  exists l, v.ops = some l ∧ b ∈ l

structure Covers (v v' : Part) : Prop where
  changed : forall b, v'.data b ≠ v.data b -> v'.Logged b
  logged : forall b, v.Logged b -> v'.Logged b

theorem Covers.refl (v : Part) : Covers v v :=
  ⟨fun _ hne => absurd rfl hne, fun _ h => h⟩

theorem Covers.trans {v' v'' : Part} (h : Covers v v') (h' : Covers v' v'') : Covers v v'' := by
  refine ⟨?_, fun b hb => h'.logged b (h.logged b hb)⟩
  intro b hne
  by_cases hmid : v''.data b = v'.data b
  · rw [hmid] at hne
    exact h'.logged b (h.changed b hne)
  · exact h'.changed b hmid

/-!
## Logging
-/

theorem record_ok (h : v.ops ≠ none) (others : Bool) (b : Nat) :
    v.record others b = .ok (v.log b) := by
  unfold record
  rw [if_neg (fun hnone => h hnone.1)]

theorem log_tx (h : v.ops ≠ none) (b : Nat) : (v.log b).ops ≠ none := by
  change v.ops.map (·.insert b) ≠ none
  intro hnone
  exact h (Option.map_eq_none_iff.mp hnone)

theorem log_logged (h : v.ops ≠ none) (b : Nat) : (v.log b).Logged b := by
  cases hops : v.ops with
  | none => exact absurd hops h
  | some l =>
    refine ⟨l.insert b, ?_, List.mem_insert_self⟩
    change v.ops.map (·.insert b) = _
    rw [hops]
    rfl

theorem Logged.log {c : Nat} (h : v.Logged c) (b : Nat) : (v.log b).Logged c := by
  rcases h with ⟨l, hops, hmem⟩
  refine ⟨l.insert b, ?_, List.mem_insert_of_mem hmem⟩
  change v.ops.map (·.insert b) = _
  rw [hops]
  rfl

theorem covers_store (h : v.ops ≠ none) (b : Nat) (bytes : Bytes) :
    Covers v ((v.store b bytes).log b) where
  changed := by
    intro c hne
    rcases eq_or_ne c b with rfl | hc
    · exact log_logged (v := v.store c bytes) h c
    · exact absurd (update_of_ne hc _ _) hne
  logged := fun _ hc => hc.log b

theorem covers_same {v' : Part} (hdata : v'.data = v.data) (hops : v'.ops = v.ops) :
    Covers v v' where
  changed := fun c hne => absurd (congrFun hdata c) hne
  logged := by
    intro c hc
    rcases hc with ⟨l, hl, hmem⟩
    exact ⟨l, hops.trans hl, hmem⟩

theorem covers_log (v : Part) (b : Nat) : Covers v (v.log b) where
  changed := fun _ hne => absurd rfl hne
  logged := fun _ hc => hc.log b

structure Logs (v v' : Part) (added : List Nat) : Prop where
  tx : v'.ops ≠ none
  subset : forall b, v'.Logged b -> v.Logged b ∨ b ∈ added
  nodup : (forall l, v.ops = some l -> l.Nodup) -> forall l, v'.ops = some l -> l.Nodup
  header : exists new, v'.lh = new ++ v.lh ∧ new.Nodup ∧ new ⊆ added ∧ new.Disjoint v.lh

namespace Logs

variable {v v' v'' : Part} {added added' : List Nat}

theorem same (htx : v.ops ≠ none) (hops : v'.ops = v.ops) (hlh : v'.lh = v.lh) :
    Logs v v' [] := by
  refine ⟨?_, ?_, ?_, [], hlh, List.nodup_nil, List.nil_subset _, List.disjoint_nil_left _⟩
  · rw [hops]
    exact htx
  · rintro b ⟨l, hl, hmem⟩
    exact .inl ⟨l, hops.symm.trans hl, hmem⟩
  · intro hv l hl
    exact hv l (hops.symm.trans hl)

theorem log (v' : Part) (htx : v.ops ≠ none) (hops : v'.ops = v.ops) (hlh : v'.lh = v.lh)
    (b : Nat) : Logs v (v'.log b) [b] := by
  have htx' : v'.ops ≠ none := by
    rw [hops]
    exact htx
  have hheader : (v'.log b).lh = v.lh.insert b := congrArg (·.insert b) hlh
  refine ⟨log_tx htx' b, ?_, ?_, ?_⟩
  · rintro c ⟨l, hl, hmem⟩
    rcases Option.map_eq_some_iff.mp hl with ⟨l0, hl0, rfl⟩
    rcases List.mem_insert_iff.mp hmem with rfl | hold
    · exact .inr List.mem_cons_self
    · exact .inl ⟨l0, hops.symm.trans hl0, hold⟩
  · intro hv l hl
    rcases Option.map_eq_some_iff.mp hl with ⟨l0, hl0, rfl⟩
    exact (hv l0 (hops.symm.trans hl0)).insert
  · rw [hheader]
    by_cases hmem : b ∈ v.lh
    · exact ⟨[], List.insert_of_mem hmem, List.nodup_nil, List.nil_subset _,
        List.disjoint_nil_left _⟩
    · exact ⟨[b], List.insert_of_not_mem hmem, List.nodup_singleton b, List.Subset.refl _,
        List.singleton_disjoint.mpr hmem⟩

theorem mono (h : Logs v v' added) (hsub : added ⊆ added') : Logs v v' added' := by
  rcases h.header with ⟨new, heq, hnodup, hnew, hdisj⟩
  exact ⟨h.tx, fun b hb => (h.subset b hb).imp id fun hmem => hsub hmem, h.nodup, new, heq, hnodup,
    List.Subset.trans hnew hsub, hdisj⟩

theorem trans (h : Logs v v' added) (h' : Logs v' v'' added') : Logs v v'' (added ++ added') := by
  rcases h.header with ⟨new, heq, hnodup, hnew, hdisj⟩
  rcases h'.header with ⟨new', heq', hnodup', hnew', hdisj'⟩
  rw [heq, List.disjoint_append_right] at hdisj'
  refine ⟨h'.tx, ?_, fun hv => h'.nodup (h.nodup hv), new' ++ new, ?_, ?_, ?_, ?_⟩
  · intro b hb
    rcases h'.subset b hb with hmid | hadd
    · exact (h.subset b hmid).imp id fun hmem => List.mem_append_left _ hmem
    · exact .inr (List.mem_append_right _ hadd)
  · rw [heq', heq, List.append_assoc]
  · exact List.nodup_append'.mpr ⟨hnodup', hnodup, hdisj'.1⟩
  · rw [List.append_subset]
    exact ⟨List.Subset.trans hnew' (List.subset_append_right _ _),
      List.Subset.trans hnew (List.subset_append_left _ _)⟩
  · rw [List.disjoint_append_left]
    exact ⟨hdisj'.2, hdisj⟩

theorem step (h : Logs v v' added) (v'' : Part) (hops : v''.ops = v'.ops) (hlh : v''.lh = v'.lh)
    {b : Nat} (hb : b ∈ added) : Logs v (v''.log b) added := by
  refine (h.trans (log v'' h.tx hops hlh b)).mono ?_
  rw [List.append_subset]
  exact ⟨List.Subset.refl _, List.cons_subset.mpr ⟨hb, List.nil_subset _⟩⟩

theorem length_le (h : Logs v v' added) : v'.lh.length <= v.lh.length + added.length := by
  rcases h.header with ⟨new, heq, hnodup, hnew, _⟩
  have hle := (hnodup.subperm hnew).length_le
  rw [heq, List.length_append]
  omega

end Logs

section

variable {nproc : Nat} {sb : Superblock} {i : Fin NINODE} {inum : Nat} {others : Bool} {v : Part}

theorem exec_getInode : exec sb i inum others (.getInode i : Act) v = .ok (v.d, v) :=
  if_pos rfl

theorem exec_grow : exec sb i inum others (.grow false : Act) v = .ok ((), v) :=
  rfl

theorem exec_update (u : Update) :
    exec sb i inum others (.update i u : Act) v = .ok ((), { v with d := u.apply v.d }) :=
  if_pos rfl

theorem exec_iupdate (h : v.ops ≠ none) :
    exec sb i inum others (.iupdate i : Act) v =
      .ok ((), Part.log { v with copy := v.d } (sb.iblock inum)) := by
  change (if i = i then _ else _) = _
  rw [if_pos rfl, record_ok (v := { v with copy := v.d }) h]
  rfl

theorem exec_readBlock (h : sb.IsData b) :
    exec sb i inum others (.readBlock b : Act) v = .ok (v.data b, v) :=
  if_pos h

theorem exec_writeBlock (htx : v.ops ≠ none) (h : sb.IsData b) (off : Nat) (bytes : List UInt8) :
    exec sb i inum others (.writeBlock b off bytes true : Act) v =
      .ok ((), (v.store b (Sys.overwrite (v.data b) off bytes)).log b) := by
  change (if sb.IsData b then _ else _) = _
  rw [if_pos h, if_pos rfl, record_ok (v := v.store b (Sys.overwrite (v.data b) off bytes)) htx]
  rfl

theorem exec_writeBlock_unlogged (h : sb.IsData b) (off : Nat) (bytes : List UInt8) :
    exec sb i inum others (.writeBlock b off bytes false : Act) v =
      .ok ((), v.store b (Sys.overwrite (v.data b) off bytes)) := by
  change (if sb.IsData b then _ else _) = _
  rw [if_pos h]
  rfl

theorem exec_bfree (htx : v.ops ≠ none) (hsize : b < sb.size) (hbit : v.bitmap b = true) :
    exec sb i inum others (.bfree b : Act) v =
      .ok ((), (v.mark b false).log (sb.bblock b)) := by
  change (if sb.size <= b then _ else _) = _
  rw [if_neg (Nat.not_le.mpr hsize), if_neg (by rw [hbit]; decide),
    record_ok (v := v.mark b false) htx]
  rfl

end

/-!
## Allocating a block
-/

def alloc (sb : Superblock) (v : Part) (b : Nat) : Part :=
  (((v.mark b true).log (sb.bblock b)).store b fun _ => 0).log b

theorem alloc_tx (h : v.ops ≠ none) (b : Nat) :
    (v.alloc sb b).ops ≠ none :=
  log_tx (v := ((v.mark b true).log (sb.bblock b)).store b fun _ => 0)
    (log_tx (v := v.mark b true) h _) _

theorem alloc_covers (sb : Superblock) (h : v.ops ≠ none) (b : Nat) :
    Covers v (v.alloc sb b) := by
  have hmark : Covers v (v.mark b true) := covers_same rfl rfl
  exact (hmark.trans (covers_log _ (sb.bblock b))).trans
    (covers_store (log_tx (v := v.mark b true) h _) b fun _ => 0)

section

variable {nproc : Nat} {sb : Superblock} {i : Fin NINODE} {inum : Nat} {others : Bool}

def Ends (sb : Superblock) (i : Fin NINODE) (inum : Nat) (others : Bool) {alpha : Type}
    (p : Prog alpha) (Q : alpha -> Part -> Prop) (v : Part) : Prop :=
  p.ends (exec sb i inum others) (fun _ => False) Q v

theorem exec_ballocScan (htx : v.ops ≠ none) (hfind : ((List.range' (k * BPB) BPB).find? fun b =>
      b < sb.size ∧ v.bitmap b = false) = some b) :
    exec sb i inum others (.ballocScan k : Act) v =
      .ok (some b, (v.mark b true).log (sb.bblock b)) := by
  rw [exec, hfind]
  dsimp only
  rw [record_ok (v := v.mark b true) htx]
  rfl

theorem exec_ballocScan_none (hfind : ((List.range' (k * BPB) BPB).find? fun b =>
      b < sb.size ∧ v.bitmap b = false) = none) :
    exec sb i inum others (.ballocScan k : Act) v = .ok (none, v) := by
  rw [exec, hfind]

theorem exec_bzero_marked (htx : v.ops ≠ none) (hdata : sb.IsData b) :
    exec sb i inum others (.bzero b : Act) ((v.mark b true).log (sb.bblock b)) =
      .ok ((), v.alloc sb b) := by
  rw [exec, if_pos hdata,
    record_ok (v := ((v.mark b true).log (sb.bblock b)).store b fun _ => 0)
      (log_tx (v := v.mark b true) htx _)]
  rfl

theorem ends_ballocLoop {n : Nat} (htx : v.ops ≠ none)
    (hfree : forall b, b < sb.size -> v.bitmap b = false -> sb.IsData b) :
    Ends sb i inum others (ballocLoop k n : Prog Nat)
      (fun b v' =>
        (b = 0 ∧ v' = v ∧
          forall c, k * BPB <= c -> c < (k + n) * BPB -> c < sb.size -> v.bitmap c = true) ∨
        (b < sb.size ∧ v.bitmap b = false ∧ v' = v.alloc sb b)) v := by
  induction n generalizing k with
  | zero =>
    refine Program.ends_ret (.inl ⟨rfl, rfl, ?_⟩)
    intro c hlow hhigh
    rw [Nat.add_zero] at hhigh
    omega
  | succ n ih =>
    unfold ballocLoop
    cases hfind : (List.range' (k * BPB) BPB).find? fun b =>
        b < sb.size ∧ v.bitmap b = false with
    | some b =>
      have hfound := List.find?_some hfind
      have hb : b < sb.size ∧ v.bitmap b = false := of_decide_eq_true hfound
      refine Program.ends_act (exec_ballocScan htx hfind) ?_
      refine Program.ends_act (exec_bzero_marked htx (hfree b hb.1 hb.2)) ?_
      exact Program.ends_ret (.inr ⟨hb.1, hb.2, rfl⟩)
    | none =>
      refine Program.ends_act (exec_ballocScan_none hfind) (Program.ends_mono ih ?_)
      intro b v' hpost
      rcases hpost with ⟨hb, hv', hrest⟩ | hsome
      · refine .inl ⟨hb, hv', ?_⟩
        intro c hlow hhigh hsize
        by_cases hc : c < (k + 1) * BPB
        · have hmem : c ∈ List.range' (k * BPB) BPB := by
            rw [List.mem_range'_1]
            have heq : (k + 1) * BPB = k * BPB + BPB := Nat.succ_mul k BPB
            omega
          have hno := List.find?_eq_none.mp hfind c hmem
          by_contra hbit
          exact hno (decide_eq_true ⟨hsize, Bool.eq_false_of_not_eq_true hbit⟩)
        · refine hrest c (by omega) ?_ hsize
          have heq : k + 1 + n = k + (n + 1) := by omega
          rw [heq]
          exact hhigh
      · exact .inr hsome

theorem ends_balloc (htx : v.ops ≠ none)
    (hfree : forall b, b < sb.size -> v.bitmap b = false -> sb.IsData b) :
    Ends sb i inum others (balloc sb : Prog Nat)
      (fun b v' =>
        (b = 0 ∧ v' = v ∧ v.Full sb) ∨
        (b < sb.size ∧ v.bitmap b = false ∧ v' = v.alloc sb b)) v := by
  refine Program.ends_mono (ends_ballocLoop htx hfree) ?_
  intro b v' hpost
  rcases hpost with ⟨hb, hv', hrest⟩ | hsome
  · refine .inl ⟨hb, hv', ?_⟩
    intro c hc
    refine hrest c (by omega) ?_ hc
    have hpos : 0 < BPB := by decide
    have hlt := Nat.lt_div_mul_add (a := sb.size + BPB - 1) hpos
    rw [Nat.zero_add]
    omega
  · exact .inr hsome

end

/-!
## Writing to the file
-/

def Needs (bn : Nat) (p : Slot) : Prop :=
  (exists h : bn < MAXFILE, p = Dinode.slotOf bn h) ∨ (NDIRECT <= bn ∧ p = Slot.indirect)

/-- From `v` to `v'` the bytes have been written at `off`.  Blocks have been added in slots of
`need` only. -/
structure Wrote (need : Slot -> Prop) (v v' : Part) (off : Nat) (bytes : List UInt8) :
    Prop where
  fields : v'.d = { v.d with size := v'.d.size, addrs := v'.d.addrs }
  kept : forall p, v.slots p ≠ 0 -> v'.slots p = v.slots p
  fresh : forall p, v.slots p = 0 -> v'.slots p ≠ 0 -> v.bitmap (v'.slots p) = false ∧ need p
  bitmap : forall b, v'.bitmap b = true <-> v.bitmap b = true ∨ b ∈ v'.taken
  apart : forall b, v.bitmap b = true -> b ∉ v.taken -> v'.data b = v.data b
  mapped : forall o, off <= o -> o < off + bytes.length -> v'.blockAt (o / BSIZE) ≠ 0
  byte : forall o, v.blockAt (o / BSIZE) ≠ 0 ∨ (off <= o ∧ o < off + bytes.length) ->
    v'.byte o = if off <= o ∧ o < off + bytes.length then bytes.getD (o - off) 0 else v.byte o

namespace Wrote

variable {need : Slot -> Prop} {v v' v'' : Part} {off : Nat} {bytes : List UInt8}

theorem refl (hmarked : forall b, b ∈ v.taken -> v.bitmap b = true) :
    Wrote need v v off [] where
  fields := rfl
  kept := fun _ _ => rfl
  fresh := fun _ hzero hne => absurd hzero hne
  bitmap := fun b => ⟨.inl, fun h => h.elim id (hmarked b)⟩
  apart := fun _ _ _ => rfl
  mapped := by
    intro o hlow hhigh
    rw [List.length_nil] at hhigh
    omega
  byte := by
    intro o _
    rw [List.length_nil, if_neg (by omega)]

section

variable (h : Wrote need v v' off bytes)
include h

theorem mono {need' : Slot -> Prop}
    (hneed : forall p, need p -> need' p) : Wrote need' v v' off bytes :=
  { h with
    fresh := fun p hzero hne => ⟨(h.fresh p hzero hne).1, hneed p (h.fresh p hzero hne).2⟩ }

theorem blockAt_kept (hne : v.blockAt bn ≠ 0) :
    v'.blockAt bn = v.blockAt bn := by
  unfold Part.blockAt Dinode.blockAt at hne ⊢
  split
  · next hbn =>
      rw [dif_pos hbn] at hne
      exact h.kept _ hne
  · rfl

theorem taken_kept (hb : b ∈ v.taken) :
    b ∈ v'.taken := by
  rcases hb with ⟨hne, p, rfl⟩
  have hkept := h.kept p hne
  exact ⟨hne, p, hkept⟩

theorem not_taken (hbit : v.bitmap b = true) (hout : b ∉ v.taken) : b ∉ v'.taken := by
  rintro ⟨hne, p, rfl⟩
  by_cases hzero : v.slots p = 0
  · have hfresh := (h.fresh p hzero hne).1
    change v.bitmap (v'.slots p) = true at hbit
    rw [hfresh] at hbit
    cases hbit
  · have hkept := h.kept p hzero
    refine hout ⟨hne, p, ?_⟩
    exact hkept.symm

theorem trans {bytes' : List UInt8} (h' : Wrote need v' v'' (off + bytes.length) bytes') :
    Wrote need v v'' off (bytes ++ bytes') where
  fields := by
    rw [h'.fields, h.fields]
  kept := by
    intro p hne
    have hkept := h.kept p hne
    rw [← hkept] at hne
    exact (h'.kept p hne).trans hkept
  fresh := by
    intro p hzero hne
    by_cases hmid : v'.slots p = 0
    · rcases h'.fresh p hmid hne with ⟨hbit, hneed⟩
      refine ⟨?_, hneed⟩
      by_contra hbit'
      have hset := (h.bitmap _).mpr (.inl (Bool.eq_true_of_not_eq_false hbit'))
      rw [hbit] at hset
      cases hset
    · rw [h'.kept p hmid] at hne ⊢
      exact h.fresh p hzero hne
  bitmap := by
    intro b
    rw [h'.bitmap, h.bitmap]
    constructor
    · rintro ((hb | hb) | hb)
      · exact .inl hb
      · exact .inr (h'.taken_kept hb)
      · exact .inr hb
    · rintro (hb | hb)
      · exact .inl (.inl hb)
      · exact .inr hb
  apart := by
    intro b hbit hout
    rw [h'.apart b ((h.bitmap b).mpr (.inl hbit)) (h.not_taken hbit hout), h.apart b hbit hout]
  mapped := by
    intro o hlow hhigh
    rw [List.length_append] at hhigh
    by_cases ho : o < off + bytes.length
    · have hmapped := h.mapped o hlow ho
      rw [h'.blockAt_kept hmapped]
      exact hmapped
    · exact h'.mapped o (by omega) (by omega)
  byte := by
    intro o ho
    rw [List.length_append] at ho ⊢
    by_cases hlast : off + bytes.length <= o ∧ o < off + bytes.length + bytes'.length
    · rw [h'.byte o (.inr hlast), if_pos hlast, if_pos (by omega),
        List.getD_append_right _ _ _ _ (by omega)]
      congr 1
      omega
    · have hmid : v.blockAt (o / BSIZE) ≠ 0 ∨ (off <= o ∧ o < off + bytes.length) := by
        rcases ho with ho | ho
        · exact .inl ho
        · exact .inr (by omega)
      have hmapped : v'.blockAt (o / BSIZE) ≠ 0 := by
        rcases hmid with hne | hin
        · rw [h.blockAt_kept hne]
          exact hne
        · exact h.mapped o hin.1 hin.2
      rw [h'.byte o (.inl hmapped), if_neg hlast, h.byte o hmid]
      by_cases hin : off <= o ∧ o < off + bytes.length
      · rw [if_pos hin, if_pos (by omega), List.getD_append _ _ _ _ (by omega)]
      · rw [if_neg hin, if_neg (by omega)]

end

end Wrote

/-!
## Adding a block
-/

theorem blockAt_eq_slots (h : bn < MAXFILE) :
    v.blockAt bn = v.slots (Dinode.slotOf bn h) :=
  Fs.blockAt_eq h

theorem blockAt_lt (hne : v.blockAt bn ≠ 0) : bn < MAXFILE := by
  by_contra hbn
  exact hne (dif_neg hbn)

theorem blockAt_mem (hne : v.blockAt bn ≠ 0) : v.blockAt bn ∈ v.taken :=
  blockAt_taken hne

theorem Owned.blockAt_ne_ind (h : v.Owned sb)
    (hne : v.blockAt bn ≠ 0) : v.blockAt bn ≠ v.d.ind := by
  have hbn := blockAt_lt hne
  rw [blockAt_eq_slots hbn] at hne ⊢
  intro heq
  exact slotOf_ne_indirect hbn (h.apart _ Slot.indirect heq hne)

theorem Owned.grow {p : Slot} {need : Slot -> Prop}
    (h : v.Owned sb) (v' : Part) (off : Nat) (hsb : sb.Valid) (hsize : b < sb.size)
    (hbit : v.bitmap b = false)
    (hzero : v.slots p = 0) (hneed : need p)
    (hfields : v'.d = { v.d with size := v'.d.size, addrs := v'.d.addrs })
    (htx : v'.ops ≠ none) (hslots : v'.slots = update v.slots p b)
    (hbitmap : v'.bitmap = update v.bitmap b true)
    (hdata : forall c, c ≠ b -> ¬ (v.d.ind ≠ 0 ∧ c = v.d.ind) -> v'.data c = v.data c) :
    v'.Owned sb ∧ Wrote need v v' off [] := by
  have hisData := h.free b hsize hbit
  have hb := hsb.ne_zero hisData
  have hmark : forall c, v.bitmap c = true -> c ≠ b := by
    rintro c hc rfl
    rw [hbit] at hc
    cases hc
  have hout : b ∉ v.taken := fun hmem => hmark b (h.marked b hmem) rfl
  have htaken : v'.taken = insert b v.taken := by
    change Taken v'.slots = insert b (Taken v.slots)
    rw [hslots]
    exact taken_put hzero hb
  have hbit' : forall c, v'.bitmap c = true <-> v.bitmap c = true ∨ c = b := by
    intro c
    rw [hbitmap]
    rcases eq_or_ne c b with rfl | hc
    · rw [update_self]
      exact ⟨fun _ => .inr rfl, fun _ => rfl⟩
    · rw [update_of_ne hc]
      exact ⟨.inl, fun hor => hor.resolve_right hc⟩
  have hold : forall c, v.bitmap c = true -> ¬ (v.d.ind ≠ 0 ∧ c = v.d.ind) ->
      v'.data c = v.data c :=
    fun c hc => hdata c (hmark c hc)
  constructor
  · constructor
    · exact htx
    · rw [hslots]
      exact h.apart.put hout
    · intro c hc
      rw [htaken] at hc
      rcases hc with rfl | hc
      · exact hisData
      · exact h.data c hc
    · intro c hc
      rw [htaken] at hc
      rw [hbit']
      rcases hc with rfl | hc
      · exact .inr rfl
      · exact .inl (h.marked c hc)
    · intro c hlt hc
      refine h.free c hlt ?_
      by_contra hset
      rw [(hbit' c).mpr (.inl (Bool.eq_true_of_not_eq_false hset))] at hc
      cases hc
  · have hkept : forall q, v.slots q ≠ 0 -> v'.slots q = v.slots q := by
      intro q hq
      rw [hslots]
      refine update_of_ne ?_ _ _
      rintro rfl
      exact hq hzero
    refine
      {
        fields := hfields
        kept := hkept
        fresh := ?_
        bitmap := ?_
        apart := ?_
        mapped := ?_
        byte := ?_
      }
    · intro q hq hne
      rw [hslots] at hne ⊢
      rcases eq_or_ne q p with rfl | hqp
      · rw [update_self]
        exact ⟨hbit, hneed⟩
      · rw [update_of_ne hqp] at hne
        exact absurd hq hne
    · intro c
      rw [hbit', htaken]
      constructor
      · rintro (hc | rfl)
        · exact .inl hc
        · exact .inr (Set.mem_insert _ _)
      · rintro (hc | rfl | hc)
        · exact .inl hc
        · exact .inr rfl
        · exact .inl (h.marked c hc)
    · intro c hc hnot
      refine hold c hc ?_
      rintro ⟨hind, rfl⟩
      exact hnot (ind_taken hind)
    · intro o hlow hhigh
      rw [List.length_nil] at hhigh
      omega
    · intro o ho
      rw [List.length_nil] at ho ⊢
      have hne : v.blockAt (o / BSIZE) ≠ 0 := ho.resolve_right (by omega)
      have hbn := blockAt_lt hne
      rw [if_neg (by omega)]
      have hsame : v'.blockAt (o / BSIZE) = v.blockAt (o / BSIZE) := by
        rw [blockAt_eq_slots hbn] at hne ⊢
        rw [hkept _ hne, ← blockAt_eq_slots hbn]
      change v'.data (v'.blockAt (o / BSIZE)) _ = v.data (v.blockAt (o / BSIZE)) _
      rw [hsame, hold _ (h.marked _ (blockAt_mem hne)) fun hind => h.blockAt_ne_ind hne hind.2]

/-!
## `bmap`
-/

structure Mapped (sb : Superblock) (v : Part) (bn off addr : Nat) (v' : Part) : Prop where
  owned : v'.Owned sb
  wrote : Wrote (Needs bn) v v' off []
  covers : Covers v v'
  size_eq : v'.d.size = v.d.size
  copy_eq : v'.copy = v.copy
  addr_eq : v'.blockAt bn = addr
  full : addr = 0 -> v'.Full sb

section

variable {nproc : Nat} {sb : Superblock} {i : Fin NINODE} {inum : Nat} {others : Bool}

theorem slots_alloc_data (h : v.Owned sb) (hbit : v.bitmap b = false) :
    v.d.slots (v.alloc sb b).data = v.slots := by
  refine slots_of_agree ?_
  intro c hc
  refine update_of_ne ?_ _ _
  rintro rfl
  rw [h.marked c hc] at hbit
  cases hbit

def setAddr (v : Part) (k : Fin (NDIRECT + 1)) (b : Nat) : Part :=
  { v with d := (Update.addr k b).apply v.d }

theorem Owned.fill {k : Fin (NDIRECT + 1)} {need : Slot -> Prop}
    (h : v.Owned sb) (off : Nat) (hsb : sb.Valid) (hsize : b < sb.size) (hbit : v.bitmap b = false)
    (hzero : v.d.addrs k = 0) (hneed : need (.direct k)) :
    ((v.alloc sb b).setAddr k b).Owned sb ∧
      Wrote need v ((v.alloc sb b).setAddr k b) off [] := by
  have hzeroed : (v.alloc sb b).data b = fun _ => 0 := update_self _ _ _
  refine h.grow ((v.alloc sb b).setAddr k b) off hsb hsize hbit (p := .direct k) hzero hneed rfl
    (alloc_tx h.tx b) ?_ rfl ?_
  · change ((Update.addr k b).apply v.d).slots (v.alloc sb b).data = _
    by_cases hk : k = Fin.last NDIRECT
    · subst hk
      rw [slots_ind hzero hzeroed, slots_alloc_data h hbit]
      rfl
    · rw [slots_addr hk, slots_alloc_data h hbit]
  · intro c hc _
    exact update_of_ne hc _ _

theorem ends_grow {off : Nat} {f : Nat -> Prog Nat} (hsb : sb.Valid) (h : v.Owned sb)
    (hzero : v.blockAt bn = 0) (hfresh : forall b, b < sb.size -> v.bitmap b = false -> b ≠ 0 ->
      Ends sb i inum others (f b) (Mapped sb v bn off) (v.alloc sb b)) :
    Ends sb i inum others (do
      perform (.grow false)
      let addr ← balloc sb
      if addr = 0 then pure 0 else f addr) (Mapped sb v bn off) v := by
  refine Program.ends_act exec_grow ?_
  refine Program.ends_call (ends_balloc h.tx h.free) ?_
  rintro b v1 (⟨rfl, rfl, hfull⟩ | ⟨hsize, hbit, rfl⟩)
  · rw [if_pos rfl]
    exact Program.ends_ret ⟨h, .refl h.marked, .refl _, rfl, rfl, hzero, fun _ => hfull⟩
  · have hb := hsb.ne_zero (h.free b hsize hbit)
    rw [if_neg hb]
    exact hfresh b hsize hbit hb

theorem ends_bmapIndirect {j off : Nat} (hsb : sb.Valid) (h : v.Owned sb)
    (hind : v.d.ind ≠ 0) (hj : j < NINDIRECT) :
    Ends sb i inum others (bmap.bmapIndirect sb false v.d.ind j : Prog Nat)
      (Mapped sb v (NDIRECT + j) off) v := by
  have hbn : NDIRECT + j < MAXFILE := Nat.add_lt_add_left hj _
  have hslot : Dinode.slotOf (NDIRECT + j) hbn = .entry ⟨j, hj⟩ := by
    unfold Dinode.slotOf
    rw [dif_neg (by omega)]
    congr 2
    omega
  have hentry : v.slots (.entry ⟨j, hj⟩) = entry (v.data v.d.ind) j := by
    change (if v.d.ind = 0 then 0 else _) = _
    rw [if_neg hind]
  have hneed : Needs (NDIRECT + j) (.entry ⟨j, hj⟩) := .inl ⟨hbn, hslot.symm⟩
  have hdata : sb.IsData v.d.ind := h.data _ (ind_taken hind)
  unfold bmap.bmapIndirect
  refine Program.ends_act (exec_readBlock hdata) ?_
  split
  · next hzero =>
      refine ends_grow hsb h ?_ fun b hsize hbit hb => ?_
      · rw [blockAt_eq_slots hbn, hslot, hentry, hzero]
      · refine Program.ends_act (exec_writeBlock (alloc_tx h.tx b) hdata _ _) ?_
        have hne : v.d.ind ≠ b := by
          intro heq
          rw [← heq, h.marked _ (ind_taken hind)] at hbit
          cases hbit
        have hold : (v.alloc sb b).data v.d.ind = v.data v.d.ind := update_of_ne hne _ _
        have hslots : v.d.slots (update (v.alloc sb b).data v.d.ind
            (Sys.overwrite ((v.alloc sb b).data v.d.ind) (4 * j) (toBytes 4 b))) =
            update v.slots (.entry ⟨j, hj⟩) b := by
          have hw : b < 2 ^ 32 := lt_of_lt_of_le hsize hsb.size
          rw [slots_store hind ⟨j, hj⟩ hw, slots_alloc_data h hbit]
        have hrest : forall c, c ≠ b -> ¬ (v.d.ind ≠ 0 ∧ c = v.d.ind) ->
            update (v.alloc sb b).data v.d.ind
              (Sys.overwrite ((v.alloc sb b).data v.d.ind) (4 * j) (toBytes 4 b)) c =
            v.data c := by
          intro c hc hnot
          have hcind : c ≠ v.d.ind := fun heq => hnot ⟨hind, heq⟩
          rw [update_of_ne hcind]
          exact update_of_ne hc _ _
        have hgrow := h.grow (((v.alloc sb b).store v.d.ind
          (Sys.overwrite ((v.alloc sb b).data v.d.ind) (4 * j) (toBytes 4 b))).log v.d.ind) off
          hsb hsize hbit (hentry.trans hzero) hneed rfl (log_tx (alloc_tx h.tx b) _) hslots rfl
          hrest
        refine Program.ends_ret ⟨hgrow.1, hgrow.2, ?_, rfl, rfl, ?_, fun h0 => absurd h0 hb⟩
        · exact (alloc_covers sb h.tx b).trans (covers_store (alloc_tx h.tx b) _ _)
        · rw [blockAt_eq_slots hbn, hslot]
          exact (congrFun hslots _).trans (update_self _ _ _)
  · next hne =>
      refine Program.ends_ret ⟨h, .refl h.marked, .refl _, rfl, rfl, ?_, fun h0 => absurd h0 hne⟩
      rw [blockAt_eq_slots hbn, hslot, hentry]

theorem ends_bmap (off : Nat) (hsb : sb.Valid) (h : v.Owned sb) (hbn : bn < MAXFILE) :
    Ends sb i inum others (bmap sb i bn false : Prog Nat) (Mapped sb v bn off) v := by
  unfold bmap
  split
  · next hdirect =>
      have hslot : Dinode.slotOf bn hbn = .direct ⟨bn, Nat.lt_succ_of_lt hdirect⟩ := dif_pos hdirect
      refine Program.ends_act exec_getInode ?_
      split
      · next hzero =>
          refine ends_grow hsb h ?_ fun b hsize hbit hb => ?_
          · rw [blockAt_eq_slots hbn, hslot]
            exact hzero
          · refine Program.ends_act (exec_update _) ?_
            have hneed : Needs bn (.direct ⟨bn, _⟩) := .inl ⟨hbn, hslot.symm⟩
            have hfill := h.fill off hsb hsize hbit hzero hneed
            refine Program.ends_ret ⟨hfill.1, hfill.2, ?_, rfl, rfl, ?_, fun h0 => absurd h0 hb⟩
            · exact (alloc_covers sb h.tx b).trans (covers_same rfl rfl)
            · rw [blockAt_eq_slots hbn, hslot]
              exact update_self _ _ _
      · next hne =>
          refine Program.ends_ret
            ⟨h, .refl h.marked, .refl _, rfl, rfl, ?_, fun h0 => absurd h0 hne⟩
          rw [blockAt_eq_slots hbn, hslot]
          rfl
  · next hdirect =>
      have hj : bn - NDIRECT < NINDIRECT := by
        rw [MAXFILE] at hbn
        omega
      have hback : NDIRECT + (bn - NDIRECT) = bn := by omega
      rw [if_pos hj]
      refine Program.ends_act exec_getInode ?_
      split
      · next hzero =>
          refine ends_grow hsb h ?_ fun b hsize hbit hb => ?_
          · rw [blockAt_eq_slots hbn]
            unfold Dinode.slotOf
            rw [dif_neg hdirect]
            exact if_pos hzero
          · refine Program.ends_act (exec_update _) ?_
            have hneed : Needs bn Slot.indirect := .inr ⟨Nat.not_lt.mp hdirect, rfl⟩
            have hfill := h.fill off hsb hsize hbit hzero hneed
            change Program.ends _ _ _ _ ((v.alloc sb b).setAddr (Fin.last NDIRECT) b)
            generalize hv1 : (v.alloc sb b).setAddr (Fin.last NDIRECT) b = v1 at hfill ⊢
            have hind : v1.d.ind = b := by
              rw [← hv1]
              exact update_self (Fin.last NDIRECT) b v.d.addrs
            have hcovers : Covers v v1 := by
              refine (alloc_covers sb h.tx b).trans ?_
              rw [← hv1]
              exact covers_same rfl rfl
            have hrest : Ends sb i inum others
                (bmap.bmapIndirect sb false v1.d.ind (bn - NDIRECT) : Prog Nat)
                (Mapped sb v1 (NDIRECT + (bn - NDIRECT)) off) v1 :=
              ends_bmapIndirect hsb hfill.1 (by rw [hind]; exact hb) hj
            rw [hback, hind] at hrest
            refine Program.ends_mono hrest ?_
            intro addr v2 hmapped
            rw [← hv1] at hmapped
            refine ⟨hmapped.owned, ?_, ?_, hmapped.size_eq, hmapped.copy_eq, hmapped.addr_eq,
              hmapped.full⟩
            · rw [← hv1] at hfill
              exact hfill.2.trans hmapped.wrote
            · rw [← hv1] at hcovers
              exact hcovers.trans hmapped.covers
      · next hne =>
          have hrest : Ends sb i inum others
              (bmap.bmapIndirect sb false v.d.ind (bn - NDIRECT) : Prog Nat)
              (Mapped sb v (NDIRECT + (bn - NDIRECT)) off) v :=
            ends_bmapIndirect hsb h hne hj
          rw [hback] at hrest
          exact hrest

end

end Part
end Fs
end Xv6
