import Xv6.Fs.Chunks
import Xv6.Fs.FailedWrite
import Xv6.Fs.FileRead

/-!
# `filewrite`

The loop of `filewrite` opens a transaction for each piece of a write.  In a machine
that stops at the end of a transaction with more than `MAXOPBLOCKS` blocks it does
what it does without that limit.
-/

namespace Xv6
namespace Fs

open Lib Function

variable {nproc : Nat}

/-- The machine with the addition that a transaction may not log more than it has reserved. -/
def Sys.metered (sb : Superblock) (t : Fin nproc) :
    (a : Act) -> Sys nproc -> Except Stop (Ans a × Sys nproc)
  | .endOp, s =>
    if (s.ops t).all (·.length <= MAXOPBLOCKS) then Sys.exec sb t .endOp s else .error .wild
  | a, s => Sys.exec sb t a s

section

variable {sb : Superblock} {t : Fin nproc} {s s' : Sys nproc} {f : Fin NFILE} {i : Fin NINODE}
  {src : Src} {n off : Nat} {r : Int}

theorem Sys.metered_eq {a : Act} (h : a ≠ .endOp) : Sys.metered sb t a s = Sys.exec sb t a s := by
  unfold Sys.metered
  split
  · exact absurd rfl h
  · rfl

theorem Sys.metered_endOp {l : List Nat} (hops : s.ops t = some l) (hl : l.length <= MAXOPBLOCKS) :
    Sys.metered sb t .endOp s = .ok ((), s.endOp t) := by
  change (if (s.ops t).all (·.length <= MAXOPBLOCKS) then Sys.exec sb t .endOp s
    else .error .wild) = _
  rw [hops]
  exact if_pos (decide_eq_true hl)

/-!
## `writei`
-/

theorem quiet_writeiLoop (fuel tot : Nat) :
    quiet.wp (writeiLoop sb i src n fuel off tot) (fun _ _ => True) () := by
  induction fuel generalizing off tot with
  | zero => trivial
  | succ fuel ih =>
    unfold writeiLoop
    split
    · refine Rules.wp_call (quiet_bmap _ _ _) fun addr _ _ => ?_
      dsimp only
      split
      · trivial
      · split
        · exact Rules.wp_act trivial fun _ _ _ => ih _
        · exact Rules.wp_act trivial fun _ _ _ => trivial
    · trivial

theorem quiet_writei : quiet.wp (writei sb i src off n) (fun _ _ => True) () := by
  refine Rules.wp_act trivial fun d _ _ => ?_
  dsimp only
  split
  · trivial
  split
  · trivial
  refine Rules.wp_call (quiet_writeiLoop n 0) fun x _ _ => ?_
  refine Rules.wp_act trivial fun d' _ _ => ?_
  split
  · exact Rules.wp_act trivial fun _ _ _ => Rules.wp_act trivial fun _ _ _ => trivial
  · exact Rules.wp_act trivial fun _ _ _ => trivial

theorem writei_metered (s : Sys nproc) :
    (writei sb i src off n).run (Sys.metered sb t) s =
      (writei sb i src off n).run (Sys.exec sb t) s := by
  refine Rules.run_congr (L := quiet) ?_ (fun _ _ _ _ => ⟨(), trivial⟩) quiet_writei s
  intro a s o hmay
  refine Sys.metered_eq ?_
  rintro rfl
  exact hmay

/-!
## One piece
-/

/-- A file that is written to at an offset in it: the blocks of the inode are its own and there are
no holes. -/
structure FileReady (sb : Superblock) (t : Fin nproc) (s : Sys nproc) (f : Fin NFILE)
    (i : Fin NINODE) : Prop where
  own : forall v : Part, v.d = (s.itable i).d -> v.data = s.disk.data ->
    v.bitmap = s.disk.bitmap -> v.ops ≠ none -> v.Owned sb
  noHoles : (s.part t i).NoHoles
  valid : (s.itable i).valid = true
  off : (s.ftable f).off <= (s.itable i).d.size

theorem Part.Owned.congr {v v' : Part} (h : v.Owned sb) (hd : v'.d = v.d)
    (hdata : v'.data = v.data) (hbitmap : v'.bitmap = v.bitmap) (htx : v'.ops ≠ none) :
    v'.Owned sb := by
  have hslots : v'.slots = v.slots := by
    unfold Part.slots
    rw [hd, hdata]
  have htaken : v'.taken = v.taken := congrArg Taken hslots
  refine ⟨htx, hslots ▸ h.apart, ?_, ?_, ?_⟩
  · rw [htaken]
    exact h.data
  · rw [htaken, hbitmap]
    exact h.marked
  · rw [hbitmap]
    exact h.free

theorem FileReady.move (h : FileReady sb t s f i) (hdisk : s'.disk = s.disk)
    (hd : (s'.itable i).d = (s.itable i).d) (hvalid : (s'.itable i).valid = true)
    (hoff : (s'.ftable f).off <= (s.itable i).d.size) : FileReady sb t s' f i where
  own := by
    rw [hdisk, hd]
    exact h.own
  noHoles := by
    have hno : forall bn, bn * BSIZE < (s.itable i).d.size ->
        (s.itable i).d.blockAt s.disk.data bn ≠ 0 := h.noHoles
    rw [← hd, ← hdisk] at hno
    exact hno
  valid := hvalid
  off := by
    rw [hd]
    exact hoff

structure Piece (sb : Superblock) (t : Fin nproc) (f : Fin NFILE) (i : Fin NINODE) (off n : Nat)
    (r : Int) (s' : Sys nproc) : Prop where
  fits : exists l, s'.ops t = some l ∧ l.length <= MAXOPBLOCKS
  ready : FileReady sb t s' f i
  off_eq : (s'.ftable f).off = off
  reached : 0 < r -> off + r.toNat <= (s'.itable i).d.size ∧ off + r.toNat <= MAXFILE * BSIZE

theorem ends_piece (hsb : sb.Valid) (h : FileReady sb t s f i) (hop : s.ops t = some [])
    (hn : n <= Part.chunk) :
    (writei sb i src (s.ftable f).off n).ends (Sys.metered sb t) (fun e => e ≠ .wild)
      (Piece sb t f i (s.ftable f).off n) s := by
  have htx : (s.part t i).ops ≠ none := by
    change s.ops t ≠ none
    rw [hop]
    exact nofun
  have hown : (s.part t i).Owned sb := h.own _ rfl rfl rfl htx
  have hends : (writei sb i src (s.ftable f).off n).ends (Sys.exec sb t) (fun e => e ≠ .wild)
      (Piece sb t f i (s.ftable f).off n) s := by
    rcases writei_cases (s := s) (i := i) (s.ftable f).off n with hbad | ⟨hle, hmax⟩
    · have hsize : (s.itable i).d.size <= MAXFILE * BSIZE := h.noHoles.size_le
      have hoff := h.off
      have hchunk : Part.chunk = 3072 := rfl
      have hword : MAXFILE * BSIZE + 3072 < 2 ^ 32 := by decide
      refine Program.ends_mono (Part.ends_writei_rejected (s.shows_exec t i) (by omega) (by omega)
        hbad) ?_
      rintro _ _ ⟨rfl, rfl⟩
      exact ⟨⟨[], hop, Nat.zero_le _⟩, h, rfl, fun hr => by omega⟩
    · refine Program.ends_of_run (Sys.ends_writei _ src hsb hown hle hmax ?_) ?_
      · rintro e _ (rfl | rfl)
        · exact nofun
        · exact nofun
      · rintro r _ hrun ⟨v, bytes, extra, rfl, hw⟩
        rcases writei_fits hop h.noHoles hle hn hrun with ⟨l, hl, _, hlen⟩
        have hentry : (s.put t i v).itable i = { s.itable i with d := v.d } := update_self _ _ _
        have hpart := Sys.part_put s t i v
        have hsize : v.d.size = max (s.itable i).d.size ((s.ftable f).off + bytes.length) :=
          hw.size_eq
        have hno : v.NoHoles := hw.noHoles h.noHoles hle
        have hlast : bytes.length <= n := by
          rcases hw.why with h | h | h <;> omega
        refine ⟨⟨l, hl, hlen⟩, ⟨?_, ?_, ?_, ?_⟩, rfl, ?_⟩
        · intro v' hd hdata hbitmap htx'
          rw [hentry] at hd
          exact hw.owned.congr hd hdata hbitmap htx'
        · rw [hpart]
          exact hno
        · rw [hentry]
          exact h.valid
        · rw [hentry]
          change (s.ftable f).off <= v.d.size
          omega
        · intro hr
          rw [hentry, hw.ret]
          change (s.ftable f).off + _ <= v.d.size ∧ _
          omega
  unfold Program.ends
  rw [writei_metered]
  exact hends

/-!
## The loop
-/

theorem wrap32_of_le (h : n <= MAXFILE * BSIZE) : wrap32 n = n := by
  have hword : MAXFILE * BSIZE < 2 ^ 32 := by decide
  exact Nat.mod_eq_of_lt (by omega)

theorem beginOp_error {e : Stop} (h : s.beginOp t = .error e) : e = .blocked := by
  unfold Sys.beginOp at h
  split at h
  · cases h
    rfl
  · cases h

theorem acquiresleep_cases (s : Sys nproc) (t : Fin nproc) (i : Fin NINODE) :
    s.acquiresleep t i = .ok (s.setInode i { s.itable i with lock := some t }) ∨
      exists e, e ≠ .wild ∧ s.acquiresleep t i = .error e := by
  unfold Sys.acquiresleep
  split
  · refine .inr ⟨.panic .ilock, ?_, rfl⟩
    exact nofun
  split
  · exact .inl rfl
  · refine .inr ⟨.blocked, ?_, rfl⟩
    exact nofun

theorem iunlock_cases (s : Sys nproc) (t : Fin nproc) (i : Fin NINODE) :
    s.iunlock t i = .ok (s.setInode i { s.itable i with lock := none }) ∨
      exists e, e ≠ .wild ∧ s.iunlock t i = .error e := by
  unfold Sys.iunlock
  split
  · refine .inr ⟨.panic .iunlock, ?_, rfl⟩
    exact nofun
  · exact .inl rfl

theorem ends_turn {alpha : Type} {p : Prog alpha} {Q : alpha -> Sys nproc -> Prop} {l : List Nat}
    (hops : s.ops t = some l) (hl : l.length <= MAXOPBLOCKS) (h : FileReady sb t s f i)
    (hrest : forall s', FileReady sb t s' f i ->
      p.ends (Sys.metered sb t) (fun e => e ≠ .wild) Q s') :
    Program.ends (Sys.metered sb t) (fun e => e ≠ .wild) (do
      perform (.iunlock i)
      perform .endOp
      p) Q s := by
  have hunlock : Sys.metered sb t (.iunlock i) s = (s.iunlock t i).map ((), ·) :=
    Sys.metered_eq (a := .iunlock i) nofun
  rcases iunlock_cases s t i with heq | ⟨e, he, heq⟩
  · rw [heq] at hunlock
    refine Program.ends_act hunlock ?_
    refine Program.ends_act (Sys.metered_endOp (l := l) hops hl) ?_
    rcases Sys.endOp_eq (s.setInode i { s.itable i with lock := none }) t with ⟨lh, hend⟩
    have hself : (s.setInode i { s.itable i with lock := none }).itable i =
        { s.itable i with lock := none } := update_self _ _ _
    rw [hend]
    refine hrest _ (h.move rfl ?_ ?_ h.off)
    · change ((s.setInode i { s.itable i with lock := none }).itable i).d = _
      rw [hself]
    · change ((s.setInode i { s.itable i with lock := none }).itable i).valid = _
      rw [hself]
      exact h.valid
  · rw [heq] at hunlock
    exact Program.ends_stop hunlock he

/-- The inode is in memory, so `ilock` only takes the lock. -/
theorem ends_ilock_ready (h : FileReady sb t s f i) {l : Option (List Nat)} (hops : s.ops t = l) :
    (ilock i).ends (Sys.metered sb t) (fun e => e ≠ .wild)
      (fun _ s' => FileReady sb t s' f i ∧ s'.ops t = l) s := by
  have hlock : Sys.metered sb t (.acquiresleep i) s = (s.acquiresleep t i).map ((), ·) :=
    Sys.metered_eq (a := .acquiresleep i) nofun
  rcases acquiresleep_cases s t i with heq | ⟨e, he, heq⟩
  · rw [heq] at hlock
    have hself : (s.setInode i { s.itable i with lock := some t }).itable i =
        { s.itable i with lock := some t } := update_self _ _ _
    have hvalid : ((s.setInode i { s.itable i with lock := some t }).itable i).valid = true := by
      rw [hself]
      exact h.valid
    have hready : FileReady sb t (s.setInode i { s.itable i with lock := some t }) f i :=
      h.move rfl (by rw [hself]) hvalid h.off
    refine Program.ends_act hlock ?_
    have hfill : Sys.metered sb t (.fill i) (s.setInode i { s.itable i with lock := some t }) =
        .ok ((), s.setInode i { s.itable i with lock := some t }) := by
      rw [Sys.metered_eq (a := .fill i) nofun]
      exact congrArg (Except.map ((), ·)) (if_pos hvalid)
    exact Program.ends_perform hfill ⟨hready, hops⟩
  · rw [heq] at hlock
    exact Program.ends_stop hlock he

/-- A turn begins: a transaction that has logged nothing, and the lock. -/
theorem ends_enter {alpha : Type} {p : Prog alpha} {Q : alpha -> Sys nproc -> Prop}
    (h : FileReady sb t s f i)
    (hrest : forall s', FileReady sb t s' f i -> s'.ops t = some [] ->
      p.ends (Sys.metered sb t) (fun e => e ≠ .wild) Q s') :
    Program.ends (Sys.metered sb t) (fun e => e ≠ .wild) (do
      perform .beginOp
      ilock i
      p) Q s := by
  have hbegin : Sys.metered sb t .beginOp s = (s.beginOp t).map ((), ·) :=
    Sys.metered_eq (a := .beginOp) nofun
  cases hs1 : s.beginOp t with
  | error e =>
    rw [hs1] at hbegin
    refine Program.ends_stop hbegin ?_
    rw [beginOp_error hs1]
    exact nofun
  | ok s1 =>
    rw [hs1] at hbegin
    refine Program.ends_act hbegin ?_
    have hop : s1.ops t = some [] := by
      rw [Sys.beginOp_eq hs1]
      exact update_self _ _ _
    have h1 : FileReady sb t s1 f i := by
      rw [Sys.beginOp_eq hs1]
      exact h.move rfl rfl h.valid h.off
    refine Program.ends_call (ends_ilock_ready h1 hop) ?_
    intro _ s' hs'
    exact hrest s' hs'.1 hs'.2

theorem ends_filewriteLoop {m fuel k : Nat} (hsb : sb.Valid) (h : FileReady sb t s f i) :
    (filewriteLoop sb f i src m fuel k).ends (Sys.metered sb t) (fun e => e ≠ .wild)
      (fun _ _ => True) s := by
  induction fuel generalizing k s with
  | zero => exact Program.ends_ret trivial
  | succ fuel ih =>
    unfold filewriteLoop
    split
    · dsimp only
      have hn : min (m - k) ((MAXOPBLOCKS - 1 - 1 - 2) / 2 * BSIZE) <= Part.chunk :=
        Nat.min_le_right _ _
      generalize min (m - k) ((MAXOPBLOCKS - 1 - 1 - 2) / 2 * BSIZE) = n at hn
      refine ends_enter h fun s2 h2 hop => ?_
      have hget : Sys.metered sb t (.getFile f) s2 = .ok (s2.ftable f, s2) :=
        Sys.metered_eq (a := .getFile f) nofun
      refine Program.ends_act hget ?_
      refine Program.ends_call (ends_piece hsb h2 hop hn) ?_
      intro r s3 hpiece
      rcases hpiece.fits with ⟨l, hl, hlen⟩
      have hnext : forall s', FileReady sb t s' f i ->
          Program.ends (Sys.metered sb t) (fun e => e ≠ .wild)
            (if r ≠ n then pure (-1) else filewriteLoop sb f i src m fuel (k + n))
            (fun _ _ => True) s' := by
        intro s' h'
        split
        · exact Program.ends_ret trivial
        · exact ih h'
      split
      · rename_i hr
        rcases hpiece.reached hr with ⟨hsize, hmax⟩
        have hwrap := wrap32_of_le hmax
        have hset : Sys.metered sb t (.setOff f (wrap32 ((s2.ftable f).off + r.toNat))) s3 =
            .ok ((), s3.setFile f { s3.ftable f with off := (s2.ftable f).off + r.toNat }) := by
          rw [hwrap]
          exact Sys.metered_eq (a := .setOff f _) nofun
        refine Program.ends_act hset ?_
        refine ends_turn hl hlen (hpiece.ready.move rfl rfl hpiece.ready.valid ?_) hnext
        change (update s3.ftable f _ f).off <= _
        rw [update_self]
        exact hsize
      · exact ends_turn hl hlen hpiece.ready hnext
    · exact Program.ends_ret trivial

theorem ends_filewrite {m : Int} (hsb : sb.Valid)
    (h : (s.ftable f).type = .inode -> FileReady sb t s f (s.ftable f).ip) :
    (filewrite sb f src m).ends (Sys.metered sb t) (fun e => e ≠ .wild) (fun _ _ => True) s := by
  have hget : Sys.metered sb t (.getFile f) s = .ok (s.ftable f, s) :=
    Sys.metered_eq (a := .getFile f) nofun
  refine Program.ends_act hget ?_
  split
  · exact Program.ends_ret trivial
  cases htype : (s.ftable f).type with
  | none =>
    have hpanic : Sys.metered sb t (.panic .filewrite) s = .error (.panic .filewrite) :=
      Sys.metered_eq (a := .panic .filewrite) nofun
    exact Program.ends_stop hpanic nofun
  | device => exact Program.ends_ret trivial
  | inode =>
    dsimp only
    split
    · exact Program.ends_ret trivial
    · exact ends_filewriteLoop hsb (h htype)

theorem filewrite_fits {m : Int} (hsb : sb.Valid)
    (h : (s.ftable f).type = .inode -> FileReady sb t s f (s.ftable f).ip) :
    (filewrite sb f src m).run (Sys.metered sb t) s =
      (filewrite sb f src m).run (Sys.exec sb t) s := by
  have hends : (filewrite sb f src m).ends (Sys.metered sb t) (fun e => e ≠ .wild)
      (fun _ _ => True) s := ends_filewrite hsb h
  have hwild : (filewrite sb f src m).run (Sys.metered sb t) s ≠ .error .wild := by
    intro heq
    unfold Program.ends at hends
    rw [heq] at hends
    exact hends rfl
  refine Program.run_of_ne ?_ hwild
  intro a u hne
  unfold Sys.metered at hne ⊢
  split
  · split
    · rfl
    · rename_i hlong
      exact absurd (if_neg hlong) hne
  · rfl

end

end Fs
end Xv6
