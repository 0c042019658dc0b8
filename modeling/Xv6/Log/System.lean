import Xv6.Lib.RedoLog
import Xv6.Log.View

/-!
# The logging system

Processes that use the buffer cache and the log, the commit that the last
`end_op` runs, power failures, and the recovery at the next boot.  A process
that panics takes no further step.
-/

namespace Xv6
namespace Log

open Lib
open Bio

structure User where
  pid : Nat
  buf : Nat
  blockno : Nat
deriving DecidableEq

inductive Boot where
  | start
  | recovering
  | up
deriving DecidableEq

/-- The memory of the kernel and the disk.  `pending` lists the writes logged since
the last commit point, `history` the writes of every transaction whose header
reached the disk. -/
structure Sys where
  op : OpState
  disk : Nat -> Block
  cache : Bcache
  users : List User
  runner : Nat
  prog : List Micro
  boot : Boot
  pending : List (Nat × Block)
  history : List (List (Nat × Block))

def Sys.mem (s : Sys) : Mem :=
  { disk := s.disk, cache := s.cache }

/-- What a power failure leaves: the disk, and a kernel about to run
`recover_from_log`. -/
def Sys.reboot (s : Sys) : Sys :=
  { s with
    op := OpState.boot s.op.log.start s.op.log.dev
    cache := binit
    users := []
    prog := []
    boot := .start
    pending := [] }

def homes (start : Nat) : Set Nat :=
  fun n => (n < start ∨ start + LOGBLOCKS < n) ∧ n < 2 ^ 32

/-- The first `write_head` of a commit, at which the transaction becomes durable. -/
def CommitPoint (log : LogState) (u : Micro) : Prop :=
  u = .writeHead ∧ log.lh ≠ []

instance (log : LogState) (u : Micro) : Decidable (CommitPoint log u) :=
  inferInstanceAs (Decidable (_ ∧ _))

def Sys.micro (s : Sys) (u : Micro) (rest : List Micro) (log : LogState) (m : Mem) : Sys :=
  { s with
    op := { s.op with log := log, logged := if u = .clear then ∅ else s.op.logged }
    disk := m.disk
    cache := m.cache
    prog := rest
    pending := if CommitPoint s.op.log u then [] else s.pending
    history := if CommitPoint s.op.log u then s.history ++ [s.pending] else s.history }

inductive Label where
  | beginOp (pid : Nat)
  | bget (pid n : Nat)
  | lock (u : User)
  | logWrite (u : User) (v : Block)
  | brelse (u : User)
  | endOp (pid : Nat)
  | micro
  | endCommit
  | crash
  | readHead
  | recovered

inductive Step : Sys -> Label -> Sys -> Prop where
  | beginOp {s : Sys} {pid : Nat} {op : OpState} :
      s.boot = .up ->
      OpStep s.op (.beginOp pid) op ->
      Step s (.beginOp pid) { s with op := op }
  | bget {s : Sys} {pid n i : Nat} {c : Bcache} :
      s.boot = .up ->
      bget s.cache ROOTDEV n = .ok (c, i) ->
      Step s (.bget pid n)
        { s with cache := c, users := { pid := pid, buf := i, blockno := n } :: s.users }
  | lock {s : Sys} {u : User} {c : Bcache} :
      s.boot = .up ->
      u ∈ s.users ->
      acquire s.cache u.pid u.buf = some c ->
      Step s (.lock u) { s with cache := fill c s.disk u.buf }
  | logWrite {s : Sys} {u : User} {v : Block} {log : LogState} {fresh : Bool}
      {op : OpState} :
      s.boot = .up ->
      u ∈ s.users ->
      (s.cache.buf u.buf).lock = some u.pid ->
      u.blockno ∈ homes s.op.log.start ->
      Log.logWrite s.op.log u.blockno = .ok (log, fresh) ->
      OpStep s.op (.logWrite u.pid u.blockno) op ->
      Step s (.logWrite u v)
        { s with
          op := op
          cache := if fresh then bpin (setData s.mem u.buf v).cache u.buf
            else (setData s.mem u.buf v).cache
          pending := s.pending ++ [(u.blockno, v)] }
  | brelse {s : Sys} {u : User} {c : Bcache} :
      s.boot = .up ->
      u ∈ s.users ->
      brelse s.cache u.pid u.buf = .ok c ->
      Step s (.brelse u) { s with cache := c, users := s.users.erase u }
  | endOp {s : Sys} {pid : Nat} {op : OpState} :
      s.boot = .up ->
      OpStep s.op (.endOp pid) op ->
      Step s (.endOp pid)
        { s with
          op := op
          runner := pid
          prog := if op.log.committing then commitProg op.log.lh.length else s.prog }
  | micro {s : Sys} {u : Micro} {rest : List Micro} {log : LogState} {m : Mem} :
      s.prog = u :: rest ->
      microStep s.runner (s.op.log, s.mem) u = .ok (log, m) ->
      Step s .micro (s.micro u rest log m)
  | endCommit {s : Sys} {op : OpState} :
      s.boot = .up ->
      s.prog = [] ->
      OpStep s.op .endCommit op ->
      Step s .endCommit { s with op := op }
  | crash {s : Sys} :
      Step s .crash s.reboot
  | readHead {s : Sys} {log : LogState} {m : Mem} :
      s.boot = .start ->
      Log.readHead s.runner s.op.log s.mem = .ok (log, m) ->
      Step s .readHead
        { s with
          op := { s.op with log := log }
          cache := m.cache
          prog := installProg true log.lh.length
          boot := .recovering }
  | recovered {s : Sys} :
      s.boot = .recovering ->
      s.prog = [] ->
      Step s .recovered { s with boot := .up }

def Sys.init (start : Nat) (d0 : Nat -> Block) : Sys :=
  { op := OpState.boot start ROOTDEV
    disk := d0
    cache := binit
    users := []
    runner := 0
    prog := []
    boot := .start
    pending := []
    history := [] }

def system (start : Nat) (d0 : Nat -> Block) : System Sys Label :=
  { init := fun s => s = Sys.init start d0
    step := Step }

/-!
## Running the system

The steps as a function, to follow a given run.
-/

instance (start n : Nat) : Decidable (n ∈ homes start) :=
  inferInstanceAs (Decidable ((n < start ∨ start + LOGBLOCKS < n) ∧ n < 2 ^ 32))

def Sys.execUp (s : Sys) : Label -> Option Sys
  | .beginOp pid => (opExec s.op (.beginOp pid)).map (fun op => { s with op := op })
  | .bget pid n =>
    match bget s.cache ROOTDEV n with
    | .ok (c, i) =>
      some { s with cache := c, users := { pid := pid, buf := i, blockno := n } :: s.users }
    | .error _ => none
  | .lock u =>
    if u ∈ s.users then
      (acquire s.cache u.pid u.buf).map (fun c => { s with cache := fill c s.disk u.buf })
    else
      none
  | .logWrite u v =>
    if u ∈ s.users ∧ (s.cache.buf u.buf).lock = some u.pid ∧
        u.blockno ∈ homes s.op.log.start then
      match Log.logWrite s.op.log u.blockno, opExec s.op (.logWrite u.pid u.blockno) with
      | .ok (_, fresh), some op =>
        some
          { s with
            op := op
            cache := if fresh then bpin (setData s.mem u.buf v).cache u.buf
              else (setData s.mem u.buf v).cache
            pending := s.pending ++ [(u.blockno, v)] }
      | _, _ => none
    else
      none
  | .brelse u =>
    if u ∈ s.users then
      match brelse s.cache u.pid u.buf with
      | .ok c => some { s with cache := c, users := s.users.erase u }
      | .error _ => none
    else
      none
  | .endOp pid =>
    (opExec s.op (.endOp pid)).map (fun op =>
      { s with
        op := op
        runner := pid
        prog := if op.log.committing then commitProg op.log.lh.length else s.prog })
  | .endCommit =>
    if s.prog = [] then
      (opExec s.op .endCommit).map (fun op => { s with op := op })
    else
      none
  | _ => none

theorem Sys.execUp_step {s s' : Sys} {l : Label} (hboot : s.boot = .up)
    (h : s.execUp l = some s') : Step s l s' := by
  cases l with
  | beginOp pid =>
    rcases Option.map_eq_some_iff.mp h with ⟨op, hop, rfl⟩
    exact Step.beginOp hboot (opExec_step hop)
  | bget pid n =>
    simp only [Sys.execUp] at h
    split at h
    · rename_i hget
      cases h
      exact Step.bget hboot hget
    · cases h
  | lock u =>
    simp only [Sys.execUp] at h
    split at h
    · rename_i hu
      rcases Option.map_eq_some_iff.mp h with ⟨c, hacq, rfl⟩
      exact Step.lock hboot hu hacq
    · cases h
  | logWrite u v =>
    simp only [Sys.execUp] at h
    split at h
    · rename_i hcond
      split at h
      · rename_i hlog hop
        cases h
        exact Step.logWrite hboot hcond.left hcond.right.left hcond.right.right hlog
          (opExec_step hop)
      · cases h
    · cases h
  | brelse u =>
    simp only [Sys.execUp] at h
    split at h
    · rename_i hu
      split at h
      · rename_i hrel
        cases h
        exact Step.brelse hboot hu hrel
      · cases h
    · cases h
  | endOp pid =>
    rcases Option.map_eq_some_iff.mp h with ⟨op, hop, rfl⟩
    exact Step.endOp hboot (opExec_step hop)
  | endCommit =>
    rcases Option.ite_none_right_eq_some.mp h with ⟨hprog, hmap⟩
    rcases Option.map_eq_some_iff.mp hmap with ⟨op, hop, rfl⟩
    exact Step.endCommit hboot hprog (opExec_step hop)
  | micro | crash | readHead | recovered => cases h

def Sys.exec (s : Sys) : Label -> Option Sys
  | .micro =>
    match s.prog with
    | u :: rest =>
      match microStep s.runner (s.op.log, s.mem) u with
      | .ok (log, m) => some (s.micro u rest log m)
      | .error _ => none
    | [] => none
  | .crash => some s.reboot
  | .readHead =>
    if s.boot = .start then
      match Log.readHead s.runner s.op.log s.mem with
      | .ok (log, m) =>
        some
          { s with
            op := { s.op with log := log }
            cache := m.cache
            prog := installProg true log.lh.length
            boot := .recovering }
      | .error _ => none
    else
      none
  | .recovered =>
    if s.boot = .recovering ∧ s.prog = [] then some { s with boot := .up } else none
  | l => if s.boot = .up then s.execUp l else none

theorem Sys.exec_step {s s' : Sys} {l : Label} (h : s.exec l = some s') : Step s l s' := by
  cases l with
  | micro =>
    simp only [Sys.exec] at h
    split at h
    · rename_i hprog
      split at h
      · rename_i hmicro
        cases h
        exact Step.micro hprog hmicro
      · cases h
    · cases h
  | crash =>
    cases h
    exact Step.crash
  | readHead =>
    simp only [Sys.exec] at h
    split at h
    · rename_i hboot
      split at h
      · rename_i hread
        cases h
        exact Step.readHead hboot hread
      · cases h
    · cases h
  | recovered =>
    rcases Option.ite_none_right_eq_some.mp h with ⟨⟨hboot, hprog⟩, heq⟩
    cases heq
    exact Step.recovered hboot hprog
  | beginOp | bget | lock | logWrite | brelse | endOp | endCommit =>
    rcases Option.ite_none_right_eq_some.mp h with ⟨hboot, hup⟩
    exact execUp_step hboot hup

/-!
## Contents of the disk

The durable contents are the image with every committed transaction applied.
-/

def Sys.durable (d0 : Nat -> Block) (s : Sys) : Nat -> Block :=
  Store.writeAll d0 s.history.flatten

def device (start : Nat) (disk : Nat -> Block) : RedoLog.Device Nat Block :=
  { head := readHeadBlock (disk start)
    slot := fun i => disk (start + i + 1)
    home := disk }

theorem homes_ne_slot {start n i : Nat} (hn : n ∈ homes start) (hi : i < LOGBLOCKS) :
    n ≠ start + i + 1 := by
  intro heq
  rcases hn with ⟨hlt | hgt, _⟩ <;> omega

theorem homes_ne_start {start n : Nat} (hn : n ∈ homes start) : n ≠ start := by
  intro heq
  rcases hn with ⟨hlt | hgt, _⟩ <;> omega

end Log
end Xv6
