import Xv6.Lib.Transition
import Xv6.Fs.LogCost

/-!
# Read after write

A file is a list of bytes.  `writei` overwrites a part of it or makes it longer, and
`readi` returns a part of it; other inodes keep their contents.
-/

namespace Xv6
namespace Fs

open Lib

variable {k n off : Nat} {v v' : Part} {bytes : List UInt8} {src : Src} {need : Slot -> Prop}

/-!
## Files as lists
-/

def splice (old : List UInt8) (off : Nat) (bytes : List UInt8) : List UInt8 :=
  old.take off ++ bytes ++ old.drop (off + bytes.length)

theorem splice_getElem? {old : List UInt8} (h : off <= old.length) :
    (splice old off bytes)[k]? =
      if off <= k ∧ k < off + bytes.length then bytes[k - off]? else old[k]? := by
  have htake : (old.take off).length = off := by
    rw [List.length_take, Nat.min_eq_left h]
  unfold splice
  by_cases hlow : k < off
  · rw [if_neg (by omega), List.append_assoc, List.getElem?_append_left (by omega),
      List.getElem?_take_of_lt hlow]
  · by_cases hin : k < off + bytes.length
    · rw [if_pos ⟨by omega, hin⟩, List.getElem?_append_left (by rw [List.length_append]; omega),
        List.getElem?_append_right (by omega), htake]
    · rw [if_neg (by omega), List.getElem?_append_right (by rw [List.length_append]; omega),
        List.length_append, htake, List.getElem?_drop]
      congr 1
      omega

/-- Bytes `[off, min(off + n, size))` of a file, with the sum in machine arithmetic. -/
def excerpt (file : List UInt8) (off n : Nat) : List UInt8 :=
  (file.take (wrap32 (off + n))).drop off

namespace Part

def contents (v : Part) : List UInt8 :=
  v.bytes 0 v.d.size

theorem contents_length (v : Part) : v.contents.length = v.d.size := by
  simp [contents, bytes]

theorem contents_getElem? (v : Part) (h : k < v.d.size) :
    v.contents[k]? = some (v.byte k) := by
  simp [contents, bytes, h]

theorem bytes_eq_excerpt (v : Part) (off n : Nat) :
    v.bytes off (v.count off n) = excerpt v.contents off n := by
  apply List.ext_getElem?
  intro k
  unfold excerpt
  rw [List.getElem?_drop]
  by_cases hk : k < v.count off n
  · have hlt : off + k < min (wrap32 (off + n)) v.d.size := by
      unfold count at hk
      omega
    rw [List.getElem?_take_of_lt (by omega), contents_getElem? v (by omega)]
    simp [bytes, hk]
  · have hge : min (wrap32 (off + n)) v.d.size <= off + k := by
      unfold count at hk
      omega
    rw [List.getElem?_eq_none (by simpa [bytes] using hk), List.getElem?_eq_none]
    rw [List.length_take, contents_length]
    exact hge

theorem Wrote.contents (h : Wrote need v v' off bytes) (hno : v.NoHoles) (hoff : off <= v.d.size)
    (hsize : v'.d.size = max v.d.size (off + bytes.length)) :
    v'.contents = splice v.contents off bytes := by
  have hlen : off <= v.contents.length := by
    rw [contents_length]
    exact hoff
  apply List.ext_getElem?
  intro k
  rw [splice_getElem? hlen]
  by_cases hk : k < v'.d.size
  · have hcase : v.blockAt (k / BSIZE) ≠ 0 ∨ (off <= k ∧ k < off + bytes.length) := by
      by_cases hold : k < v.d.size
      · exact .inl (hno.mapped hold)
      · exact .inr (by omega)
    rw [contents_getElem? v' hk, h.byte k hcase]
    split
    · next hin => rw [List.getD_eq_getElem _ _ (by omega), List.getElem?_eq_getElem (by omega)]
    · next hout => rw [contents_getElem? v (by omega)]
  · rw [List.getElem?_eq_none (by rw [contents_length]; omega), if_neg (by omega),
      List.getElem?_eq_none (by rw [contents_length]; omega)]

theorem Wrote.noHoles (h : Wrote need v v' off bytes) (hno : v.NoHoles) (hoff : off <= v.d.size)
    (hsize : v'.d.size <= max v.d.size (off + bytes.length)) : v'.NoHoles := by
  intro bn hbn
  by_cases hold : bn * BSIZE < v.d.size
  · have hne := hno bn hold
    rw [h.blockAt_kept hne]
    exact hne
  · have hmapped := h.mapped (bn * BSIZE) (by omega) (by omega)
    rw [Nat.mul_div_cancel _ (by decide)] at hmapped
    exact hmapped

/-!
## `writei`
-/

def Range (off n : Nat) (p : Slot) : Prop :=
  exists o, off <= o ∧ o < off + n ∧ Needs (o / BSIZE) p

structure Written (sb : Superblock) (src : Src) (n off : Nat) (v : Part) (r : Int) (v' : Part)
    (bytes extra : List UInt8) : Prop where
  ret : r = bytes.length
  owned : v'.Owned sb
  wrote : Wrote (Range off n) v v' off (bytes ++ extra)
  covers : extra = [] -> Covers v v'
  changed : forall b, b ≠ v'.blockAt ((off + bytes.length) / BSIZE) -> v'.data b ≠ v.data b ->
    v'.Logged b
  size_eq : v'.d.size = max v.d.size (off + bytes.length)
  copy_eq : v'.copy = v'.d
  source : forall l x, (bytes ++ extra)[l]? = some x -> src l = some x
  why : (bytes.length = n ∧ extra = []) ∨
    (bytes.length < n ∧ extra = [] ∧ v'.Full sb ∧
      v'.blockAt ((off + bytes.length) / BSIZE) = 0) ∨
    (bytes.length + extra.length < n ∧ src (bytes.length + extra.length) = none ∧
      (off + bytes.length) % BSIZE + extra.length < BSIZE ∧
      (bytes.length = 0 ∨ (off + bytes.length) % BSIZE = 0))

section

variable {sb : Superblock} {i : Fin NINODE} {inum : Nat} {others : Bool} {v : Part}

def finish (v : Part) (size b : Nat) : Part :=
  Part.log
    { v with
      d := { v.d with size := size }
      copy := { v.d with size := size } } b

theorem Loop.finish {r : Nat × Nat}
    {extra : List UInt8} (h : Loop sb (Range off n) src n off 0 v r v' bytes extra) (b : Nat) :
    Written sb src n off v r.1 (v'.finish (max v'.d.size r.2) b) bytes extra where
  ret := by
    rw [h.tot_eq, Nat.zero_add]
  owned := ⟨log_tx h.owned.tx b, h.owned.apart, h.owned.data, h.owned.marked, h.owned.free⟩
  wrote :=
    {
      fields := congrArg (fun d : Dinode => { d with size := max v'.d.size r.2 }) h.wrote.fields
      kept := h.wrote.kept
      fresh := h.wrote.fresh
      bitmap := h.wrote.bitmap
      apart := h.wrote.apart
      mapped := h.wrote.mapped
      byte := h.wrote.byte
    }
  covers := by
    intro hextra
    have hsame : Covers v'
        { v' with
          d := { v'.d with size := max v'.d.size r.2 }
          copy := { v'.d with size := max v'.d.size r.2 } } := covers_same rfl rfl
    exact (h.covers hextra).trans (hsame.trans (covers_log _ b))
  changed := by
    intro c hc hne
    rw [← h.off_eq] at hc
    exact (h.changed c hc hne).log b
  size_eq := by
    change max v'.d.size r.2 = _
    rw [h.size_eq, h.off_eq]
  copy_eq := rfl
  source := by
    intro l x hx
    have hsrc := h.source l x hx
    rw [Nat.zero_add] at hsrc
    exact hsrc
  why := by
    have hwhy := h.why
    rw [h.tot_eq, h.off_eq, Nat.zero_add, Nat.add_eq_left] at hwhy
    exact hwhy

theorem ends_writei_rejected {S E : Type} {exec : (a : Act) -> S -> Except E (Ans a × S)}
    {tol : E -> Prop} {s : S} (hshows : Shows sb i exec s v) (hoff : off < 2 ^ 32)
    (hn : n < 2 ^ 32) (hbad : v.d.size < off ∨ 2 ^ 32 <= off + n ∨ MAXFILE * BSIZE < off + n) :
    (writei sb i src off n).ends exec tol (fun r s' => r = -1 ∧ s' = s) s := by
  unfold writei
  refine Program.ends_act hshows.inode ?_
  split
  · exact Program.ends_ret ⟨rfl, rfl⟩
  · next hgood =>
      have hlt : off + n < 2 ^ 32 := by
        unfold wrap32 at hgood
        omega
      have hwrap : wrap32 (off + n) = off + n := Nat.mod_eq_of_lt hlt
      rw [hwrap] at hgood ⊢
      rw [if_pos (by omega)]
      exact Program.ends_ret ⟨rfl, rfl⟩

end

/-!
## Enough blocks
-/

end Part

/-!
## The whole state
-/

section

variable {nproc : Nat} {sb : Superblock} {s s' : Sys nproc} {t : Fin nproc} {i : Fin NINODE}

variable {alpha : Type} {p : Prog alpha}

theorem Sys.run_part {Q : alpha -> Part -> Prop}
    (h : Part.Ends sb i (s.itable i).inum (s.others t) p Q (s.part t i)) :
    exists x v, p.run (Part.exec sb i (s.itable i).inum (s.others t)) (s.part t i) = .ok (x, v) ∧
      Q x v ∧ (p.run (Sys.exec sb t) s = .ok (x, s.put t i v) ∨
        LOGBLOCKS <= v.lh.length ∧ exists e, e.Full ∧ p.run (Sys.exec sb t) s = .error e) := by
  rcases Program.ends_ok h with ⟨x, v, hrun, hQ⟩
  refine ⟨x, v, hrun, hQ, ?_⟩
  have hgood : p.run (Part.exec sb i (s.itable i).inum (s.others t)) (s.part t i) ≠
      .error .blocked := by
    rw [hrun]
    exact nofun
  have hput := Sys.run_put hgood
  rw [Sys.put_part, hrun] at hput
  rcases hput with heq | ⟨e, he, heq, hfull⟩
  · exact .inl heq
  · exact .inr ⟨hfull x v rfl, e, he, heq⟩

theorem Sys.ends_part {Q : alpha -> Part -> Prop}
    (tol : Stop -> Prop) (h : Part.Ends sb i (s.itable i).inum (s.others t) p Q (s.part t i))
    (htol : forall x v e, Q x v -> LOGBLOCKS <= v.lh.length -> e.Full -> tol e) :
    p.ends (Sys.exec sb t) tol (fun x s' => exists v, s' = s.put t i v ∧ Q x v) s := by
  rcases Sys.run_part h with ⟨x, v, _, hQ, hrun | ⟨hfull, e, he, hrun⟩⟩
  · unfold Program.ends
    rw [hrun]
    exact ⟨v, rfl, hQ⟩
  · unfold Program.ends
    rw [hrun]
    exact htol x v e hQ hfull he

theorem Sys.ends_put {a : Act} {v v' : Part} {r : Ans a} {beta : Type} {f : Ans a -> Prog beta}
    {Q : beta -> Sys nproc -> Prop} {tol : Stop -> Prop}
    (h : Part.exec sb i (s.itable i).inum (s.others t) a v = .ok (r, v'))
    (htol : forall e, LOGBLOCKS <= v.lh.length -> e.Full -> tol e)
    (hrest : (f r).ends (Sys.exec sb t) tol Q (s.put t i v')) :
    (Program.perform a >>= f).ends (Sys.exec sb t) tol Q (s.put t i v) := by
  have hgood : Part.exec sb i (s.itable i).inum (s.others t) a v ≠ .error .blocked := by
    rw [h]
    exact nofun
  rcases Sys.exec_put a v hgood with heq | ⟨hfull, e, he, heq⟩
  · rw [h] at heq
    exact Program.ends_act heq hrest
  · exact Program.ends_stop heq (htol e hfull he)

theorem Sys.shows_exec (s : Sys nproc) (t : Fin nproc) (i : Fin NINODE) :
    Part.Shows sb i (Sys.exec sb t) s (s.part t i) :=
  ⟨rfl, fun _ hb => if_pos hb⟩

theorem Sys.shows_strict (s : Sys nproc) (t : Fin nproc) (i : Fin NINODE) :
    Part.Shows sb i (Sys.strict sb t) s (s.part t i) :=
  ⟨rfl, fun _ hb => if_pos hb⟩

theorem Sys.run_of_strict {x : alpha}
    (h : p.run (Sys.strict sb t) s = .ok (x, s')) : p.run (Sys.exec sb t) s = .ok (x, s') := by
  have hexec : forall (a : Act) (u : Sys nproc), Sys.strict sb t a u ≠ .error .wild ->
      Sys.strict sb t a u = Sys.exec sb t a u := by
    intro a u hne
    refine Sys.strict_eq_exec ?_
    rintro rfl
    exact hne rfl
  have hgood : p.run (Sys.strict sb t) s ≠ .error .wild := by
    rw [h]
    exact nofun
  rw [← Program.run_of_ne hexec hgood]
  exact h

theorem readi_strict (dst : Dst) (off : Nat)
    (hdata : forall b, b ∈ (s.part t i).taken -> sb.IsData b) (hno : (s.part t i).NoHoles)
    (hn : n < 2 ^ 32) :
    exists r, (readi sb i dst off n).run (Sys.strict sb t) s = .ok (r, s) ∧
      (readi sb i dst off n).run (Sys.exec sb t) s = .ok (r, s) ∧
      ((forall j, j < n -> dst j = true) ->
        r = (((excerpt (s.part t i).contents off n).length : Int),
          excerpt (s.part t i).contents off n)) := by
  have hends : (readi sb i dst off n).ends (Sys.strict sb t) (fun _ => False) _ s :=
    Part.ends_readi_mapped (s.shows_strict t i) hdata (fun _ _ _ ho => hno.mapped ho) hn
  rcases Program.ends_ok hends with ⟨r, s', hrun, rfl, hr⟩
  refine ⟨r, hrun, Sys.run_of_strict hrun, fun hall => ?_⟩
  have hlen : (excerpt (s'.part t i).contents off n).length = (s'.part t i).count off n := by
    rw [← Part.bytes_eq_excerpt]
    simp [Part.bytes]
  rw [hr hall, hlen, Part.bytes_eq_excerpt]

structure Intact (s s' : Sys nproc) (t : Fin nproc) (i : Fin NINODE) : Prop where
  dinode : forall n, n ≠ (s.itable i).inum -> s'.disk.dinode n = s.disk.dinode n
  table : forall j, j ≠ i -> s'.itable j = s.itable j
  byte : forall d : Dinode, (forall b, b ∈ d.taken s.disk.data ->
      s.disk.bitmap b = true ∧ b ∉ (s.part t i).taken) ->
    forall o, d.blockAt s.disk.data (o / BSIZE) ≠ 0 -> d.byte s'.disk.data o = d.byte s.disk.data o

theorem writei_rejected (hoff : off < 2 ^ 32) (hn : n < 2 ^ 32)
    (hbad : (s.itable i).d.size < off ∨ 2 ^ 32 <= off + n ∨ MAXFILE * BSIZE < off + n) :
    (writei sb i src off n).run (Sys.exec sb t) s = .ok (-1, s) := by
  have hends : (writei sb i src off n).ends (Sys.exec sb t) (fun _ => False)
      (fun r s' => r = -1 ∧ s' = s) s :=
    Part.ends_writei_rejected (s.shows_exec t i) hoff hn hbad
  rcases Program.ends_ok hends with ⟨r, s', hrun, rfl, rfl⟩
  exact hrun

theorem Sys.ends_writei (tol : Stop -> Prop) (src : Src) (hsb : sb.Valid)
    (hown : (s.part t i).Owned sb)
    (hoff : off <= (s.itable i).d.size) (hmax : off + n <= MAXFILE * BSIZE)
    (htol : forall e, LOGBLOCKS <= s.lh.length + Part.cost sb off n -> e.Full -> tol e) :
    (writei sb i src off n).ends (Sys.exec sb t) tol (fun r s' => exists v bytes extra,
      s' = s.put t i v ∧ Part.Written sb src n off (s.part t i) r v bytes extra) s := by
  have hword : MAXFILE * BSIZE < 2 ^ 32 := by decide
  have hwrap : wrap32 (off + n) = off + n := Nat.mod_eq_of_lt (by omega)
  have hneed : forall o, off <= o -> o < off + (n - 0) -> forall p, Part.Needs (o / BSIZE) p ->
      Part.Range off n p :=
    fun o hlow hhigh p hp => ⟨o, hlow, hhigh, hp⟩
  have hloop : Part.Ends sb i (s.itable i).inum (s.others t) (writeiLoop sb i src n n off 0)
      (fun r v => (exists bytes extra, Part.Loop sb (Part.Range off n) src n off 0 (s.part t i) r v
        bytes extra) ∧ v.lh.length <= s.lh.length + Part.cost sb off n) (s.part t i) := by
    refine Program.ends_of_run
      (Part.ends_writeiLoop hsb hown (Nat.zero_le n) (Nat.le_refl _) hmax hneed) ?_
    rintro r v hrun ⟨bytes, extra, hloop⟩
    exact ⟨⟨bytes, extra, hloop⟩, Part.writeiLoop_header hown.tx hmax hloop.owned hrun⟩
  unfold writei
  refine Program.ends_act (s.shows_exec t i).inode ?_
  have hsize : ¬ ((s.part t i).d.size < off ∨ wrap32 (off + n) < off) := by
    change ¬ ((s.itable i).d.size < off ∨ _)
    omega
  rw [if_neg hsize, hwrap, if_neg (by omega)]
  refine Program.ends_call
    (Sys.ends_part tol hloop fun _ _ e hv hfull => htol e (hfull.trans hv.2)) ?_
  rintro ⟨tot, off'⟩ _ ⟨v1, rfl, ⟨bytes, extra, hloop⟩, hlh⟩
  have hfull : forall e, LOGBLOCKS <= v1.lh.length -> e.Full -> tol e :=
    fun e hfull => htol e (hfull.trans hlh)
  have hend := hloop.finish (sb.iblock (s.itable i).inum)
  refine Sys.ends_put Part.exec_getInode hfull ?_
  split
  · next hgrow =>
      refine Sys.ends_put (Part.exec_update _) hfull ?_
      refine Sys.ends_put (Part.exec_iupdate hloop.owned.tx) hfull ?_
      refine Program.ends_ret ⟨_, bytes, extra, rfl, ?_⟩
      rw [Nat.max_eq_right (Nat.le_of_lt hgrow)] at hend
      exact hend
  · next hsmall =>
      refine Sys.ends_put (Part.exec_iupdate hloop.owned.tx) hfull ?_
      refine Program.ends_ret ⟨_, bytes, extra, rfl, ?_⟩
      rw [Nat.max_eq_left (Nat.not_lt.mp hsmall)] at hend
      exact hend

theorem writei_returned {r : Int} (hsb : sb.Valid) (hown : (s.part t i).Owned sb)
    (hoff : off <= (s.itable i).d.size) (hmax : off + n <= MAXFILE * BSIZE)
    (hrun : (writei sb i src off n).run (Sys.exec sb t) s = .ok (r, s')) :
    exists v bytes extra, s' = s.put t i v ∧
      Part.Written sb src n off (s.part t i) r v bytes extra :=
  Program.ends_run (Sys.ends_writei (fun _ => True) src hsb hown hoff hmax fun _ _ _ => trivial)
    hrun

theorem writei_cases (off n : Nat) :
    ((s.itable i).d.size < off ∨ 2 ^ 32 <= off + n ∨ MAXFILE * BSIZE < off + n) ∨
      (off <= (s.itable i).d.size ∧ off + n <= MAXFILE * BSIZE) := by
  omega

def tinyDisk : Superblock :=
  {
    size := 64
    nblocks := 24
    ninodes := 32
    inodestart := 36
    bmapstart := 39
  }

theorem tinyDisk_valid : tinyDisk.Valid :=
  ⟨by decide, by decide⟩

def oneFile : Sys 1 :=
  {
    disk :=
      {
        dinode := fun _ => Dinode.zero
        bitmap := fun b => b < 41
        data := fun b j => if b = 40 ∧ j < 4 then UInt8.ofNat (j + 1) else 0
      }
    itable := fun _ =>
      {
        dev := ROOTDEV
        inum := 2
        ref := 1
        lock := some 0
        valid := true
        d :=
          { Dinode.zero with
            type := .file
            nlink := 1
            size := 4
            addrs := fun k => if k = 0 then 40 else 0 }
      }
    ftable := fun _ =>
      {
        type := .none
        ref := 0
        readable := false
        writable := false
        ip := 0
        off := 0
        major := 0
      }
    ops := fun _ => some []
    lh := []
  }

theorem oneFile_slots (p : Slot) :
    (oneFile.part 0 0).slots p = if p = .direct 0 then 40 else 0 := by
  cases p with
  | direct k =>
    change (if k = 0 then 40 else 0) = _
    by_cases hk : k = 0
    · rw [if_pos hk, if_pos (by rw [hk])]
    · rw [if_neg hk, if_neg (fun heq => hk (Slot.direct.inj heq))]
  | entry j => rfl

theorem oneFile_taken {b : Nat} (hb : b ∈ (oneFile.part 0 0).taken) : b = 40 := by
  rcases hb with ⟨hne, p, hp⟩
  have hslot := oneFile_slots p
  change (oneFile.part 0 0).slots p = b at hp
  rw [hp] at hslot
  split at hslot
  · exact hslot
  · exact absurd hslot hne

theorem oneFile_owned : (oneFile.part 0 0).Owned tinyDisk where
  tx := nofun
  apart := by
    intro p q heq hne
    rw [oneFile_slots p] at heq hne
    rw [oneFile_slots q] at heq
    split at heq
    · next hp =>
        split at heq
        · next hq => rw [hp, hq]
        · cases heq
    · next hp => exact absurd (if_neg hp) hne
  data := by
    intro b hb
    rw [oneFile_taken hb]
    decide
  marked := by
    intro b hb
    rw [oneFile_taken hb]
    rfl
  free := by
    intro b hsize hbit
    have hge : 41 <= b := Nat.not_lt.mp (of_decide_eq_false hbit)
    change b < 64 at hsize
    change 64 - 24 <= b ∧ b < 64
    omega

theorem oneFile_noHoles : (oneFile.part 0 0).NoHoles := by
  intro bn hbn
  change bn * 1024 < 4 at hbn
  have hzero : bn = 0 := by omega
  rw [hzero]
  decide

end

end Fs
end Xv6
