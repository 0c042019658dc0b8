import Xv6.Log.Progress

/-!
# Buffers for a commit

Every block of the log pins a buffer until it is installed, and the commit needs
one buffer more for the log block it writes.  The log holds as many blocks as the
cache has buffers, so a full log cannot be committed.
-/

namespace Xv6
namespace Log

open Lib
open Bio

variable {start : Nat} {d0 : Nat -> Block} {s : Sys}

/-- The operations of the run each log at most `MAXOPBLOCKS` distinct blocks. -/
def RespectsReservation (s : Sys) : Label -> Prop
  | .logWrite u _ => Respects s.op (.logWrite u.pid u.blockno)
  | _ => True

theorem lh_nodup_step {s' : Sys} {l : Label}
    (h : CrashInv start d0 s) (hnodup : s.boot = .up -> s.op.log.lh.Nodup)
    (hstep : Step s l s') (hboot : s'.boot = .up) : s'.op.log.lh.Nodup := by
  cases hstep with
  | beginOp hb hop =>
    cases hop with
    | beginOp _ hbegin =>
      rcases beginOp_eq_some hbegin with ⟨_, _, rfl⟩
      exact hnodup hb
  | bget hb _ => exact hnodup hb
  | lock hb _ _ => exact hnodup hb
  | @logWrite u _ _ _ _ hb _ _ _ _ hop =>
    rcases u with ⟨pid, i, n⟩
    cases hop with
    | logWrite _ hlog =>
      rcases logWrite_eq_ok hlog with ⟨_, _, ⟨_, rfl, _⟩ | ⟨hnew, rfl, _⟩⟩
      · exact hnodup hb
      · exact List.nodup_append.mpr ⟨hnodup hb, List.nodup_singleton _,
          fun a ha b hb' heq => hnew (List.mem_singleton.mp hb' ▸ heq ▸ ha)⟩
  | brelse hb _ _ => exact hnodup hb
  | endOp hb hop =>
    cases hop with
    | endOp _ hend =>
      rcases endOp_eq_ok hend with ⟨_, rfl, _⟩
      exact hnodup hb
  | micro _ hmicro =>
    rcases microStep_log hmicro with rfl | rfl
    · exact hnodup hboot
    · exact List.nodup_nil
  | endCommit hb _ hop =>
    cases hop with
    | endCommit _ _ => exact hnodup hb
  | crash => cases hboot
  | readHead _ _ => cases hboot
  | recovered hb hprog =>
    change s.op.log.lh.Nodup
    rw [(recovered_stage h hb hprog).right.left]
    exact List.nodup_nil

theorem reachable_nodup {ok : Sys -> Label -> Prop} (hempty : readHeadBlock (d0 start) = [])
    (hreach : (system start d0).ReachableVia ok s) :
    CrashInv start d0 s ∧ (s.boot = .up -> s.op.log.lh.Nodup) := by
  apply hreach.invariant
  · rintro s rfl
    exact ⟨crashInv_init hempty, fun _ => List.nodup_nil⟩
  · intro s l s' hinv _ hstep
    exact ⟨crashInv_step hinv.left hstep, lh_nodup_step hinv.left hinv.right hstep⟩

/-!
## The commit of the last `end_op`
-/

theorem commit_exists {ok : Sys -> Label -> Prop} (hok : forall s, ok s .micro)
    (hreach : (system start d0).ReachableVia ok s)
    (h : CrashInv start d0 s) (husers : s.users = [])
    (hprog : s.prog = commitProg s.op.log.lh.length) (hroom : s.op.log.lh.length < NBUF) :
    exists r, commit s.runner s.op.log s.mem = .ok r := by
  rcases reachable_prog hok hreach h { users_nil := husers, lh_lt := fun _ => hroom } with
    ⟨s', _, hran⟩
  have hrun := hran.run
  rw [hprog, commitProg_eq] at hrun
  exact ⟨_, hrun⟩

theorem commit_no_buffers
    (h : CrashInv start d0 s) (hnodup : s.op.log.lh.Nodup) (husers : s.users = [])
    (hprog : s.prog = commitProg s.op.log.lh.length) (hfull : NBUF <= s.op.log.lh.length) :
    commit s.runner s.op.log s.mem = .error (.panic .bgetNoBuffers) := by
  have hpos : 0 < s.op.log.lh.length := Nat.lt_of_lt_of_le (by decide) hfull
  have hcons : exists rest, commitProg s.op.log.lh.length = .writeLog 0 :: rest := by
    rcases Nat.exists_eq_succ_of_ne_zero (Nat.ne_of_gt hpos) with ⟨n, hn⟩
    rw [commitProg, if_pos hpos, hn, List.range_succ_eq_map]
    exact ⟨_, rfl⟩
  rcases hcons with ⟨rest, hrest⟩
  have hpins := (logging_of_writeLog h (hprog.trans hrest)).right
  have hok := h.ok_nil husers
  rw [hpins] at hok
  have hslot : s.op.log.start + 0 + 1 ∉ s.op.log.lh := by
    intro hmem
    have hhome := h.lh_home _ hmem
    rw [← h.start_eq] at hhome
    exact homes_ne_slot (i := 0) hhome (by decide) rfl
  have hread := bread_no_buffers hok s.runner List.not_mem_nil hslot
    (by rw [List.nil_append, List.toFinset_card_of_nodup hnodup]; exact hfull)
  have hbody : writeLogBody s.runner s.op.log s.mem 0 = .error (.panic .bgetNoBuffers) := by
    unfold writeLogBody
    rw [h.dev_eq, hread]
    rfl
  rw [← commitProg_eq, hrest, List.foldlM_cons]
  simp only [microStep, hbody]
  rfl

/-- With no other process in the cache, the commit finds its buffers exactly when
the log leaves one of them unpinned; otherwise its first `bread` panics. -/
theorem commit_finds_buffers {start : Nat} {d0 : Nat -> Block}
    (hempty : readHeadBlock (d0 start) = []) {s : Sys}
    (hreach : (system start d0).ReachableVia RespectsReservation s)
    (hboot : s.boot = .up) (husers : s.users = [])
    (hprog : s.prog = commitProg s.op.log.lh.length) :
    ((exists r, commit s.runner s.op.log s.mem = .ok r) <-> s.op.log.lh.length < NBUF) ∧
      (commit s.runner s.op.log s.mem = .error (.panic .bgetNoBuffers) <->
        s.op.log.lh.length = NBUF) := by
  rcases reachable_nodup hempty hreach with ⟨h, hnodup⟩
  have hle : s.op.log.lh.length <= NBUF := h.lh_le
  have hgood := commit_exists (fun _ => trivial) hreach h husers hprog
  have hbad := commit_no_buffers h (hnodup hboot) husers hprog
  refine ⟨⟨?_, hgood⟩, ?_, fun hfull => hbad (by omega)⟩
  · rintro ⟨r, hr⟩
    by_contra hfull
    rw [hbad (by omega)] at hr
    cases hr
  · intro herr
    by_contra hne
    rcases hgood (by omega) with ⟨r, hr⟩
    rw [herr] at hr
    cases hr

/-!
## Filling the log in a run
-/

instance (s : Sys) : (l : Label) -> Decidable (RespectsReservation s l)
  | .logWrite u _ => inferInstanceAs (Decidable (Respects s.op (.logWrite u.pid u.blockno)))
  | .beginOp _ | .bget _ _ | .lock _ | .brelse _ | .endOp _ | .micro | .endCommit | .crash
  | .readHead | .recovered => .isTrue trivial

def logBlock (pid buf n : Nat) : List Label :=
  [.bget pid n, .lock { pid := pid, buf := buf, blockno := n },
    .logWrite { pid := pid, buf := buf, blockno := n } (fun _ => 0),
    .brelse { pid := pid, buf := buf, blockno := n }]

def booting : List Label :=
  [.readHead, .micro, .micro, .recovered]

def fillingLog : List Label :=
  booting ++ [.beginOp 1, .beginOp 2, .beginOp 3] ++
    (List.range 30).flatMap (fun k => logBlock (k / 10 + 1) ((k + 1) % NBUF) (46 + k)) ++
    [.endOp 3, .endOp 2, .endOp 1]

/-- Three operations of ten blocks each fill the log; the commit then panics. -/
theorem full_log_cannot_commit :
    exists s, (system 2 (fun _ _ => 0)).ReachableVia RespectsReservation s ∧
      s.boot = .up ∧ s.users = [] ∧ s.op.log.committing = true ∧
      s.op.log.lh = List.range' 46 30 ∧ s.prog = commitProg s.op.log.lh.length ∧
      commit s.runner s.op.log s.mem = .error (.panic .bgetNoBuffers) := by
  have hcheck : (System.run Sys.exec RespectsReservation (Sys.init 2 fun _ _ => 0)
      fillingLog).any (fun s => decide (s.boot = .up ∧ s.users = [] ∧
        s.op.log.committing = true ∧ s.op.log.lh = List.range' 46 30 ∧
        s.prog = commitProg s.op.log.lh.length)) = true := by
    decide +kernel
  have hinit : (system 2 (fun _ _ => 0)).ReachableVia RespectsReservation
      (Sys.init 2 fun _ _ => 0) := .init rfl
  obtain ⟨s, hreach, hcheck⟩ := hinit.run_any (fun _ _ _ => Sys.exec_step) hcheck
  rcases of_decide_eq_true hcheck with ⟨hboot, husers, hcommit, hlh, hprog⟩
  rcases reachable_nodup (by decide +kernel) hreach with ⟨h, hnodup⟩
  refine ⟨s, hreach, hboot, husers, hcommit, hlh, hprog,
    commit_no_buffers h (hnodup hboot) husers hprog ?_⟩
  rw [hlh]
  decide

theorem commit_finds_buffers_one :
    exists s, (system 2 (fun _ _ => 0)).ReachableVia RespectsReservation s ∧
      s.op.log.committing = true ∧ s.op.log.lh = [46] ∧
      exists r, commit s.runner s.op.log s.mem = .ok r := by
  have hcheck : (System.run Sys.exec RespectsReservation (Sys.init 2 fun _ _ => 0)
      (booting ++ [.beginOp 1] ++ logBlock 1 1 46 ++ [.endOp 1])).any (fun s =>
        decide (s.boot = .up ∧ s.users = [] ∧ s.op.log.committing = true ∧
          s.op.log.lh = [46] ∧ s.prog = commitProg s.op.log.lh.length)) = true := by
    decide +kernel
  have hinit : (system 2 (fun _ _ => 0)).ReachableVia RespectsReservation
      (Sys.init 2 fun _ _ => 0) := .init rfl
  obtain ⟨s, hreach, hcheck⟩ := hinit.run_any (fun _ _ _ => Sys.exec_step) hcheck
  rcases of_decide_eq_true hcheck with ⟨hboot, husers, hcommit, hlh, hprog⟩
  refine ⟨s, hreach, hcommit, hlh, ?_⟩
  apply (commit_finds_buffers (by decide +kernel) hreach hboot husers hprog).left.mpr
  rw [hlh]
  decide

end Log
end Xv6
