import Xv6.Log.Header
import Xv6.Log.Reservation

/-!
# Commit and recovery

The disk half of `log.c`.  Memory is the buffer cache over the disk; every
function is run by one process and stops early when a buffer cannot be had.
-/

namespace Xv6
namespace Log

open Lib
open Bio

structure Mem where
  disk : Nat -> Block
  cache : Bcache

/-- Why a function did not return: a panic of `bio.c`, or a sleep on a buffer
that another process has locked. -/
inductive Halt where
  | panic (p : Bio.Panic)
  | sleeps
deriving DecidableEq, Repr

def bread (m : Mem) (pid dev blockno : Nat) : Except Halt (Mem × Nat) :=
  match bget m.cache dev blockno with
  | .error p => .error (.panic p)
  | .ok (c, i) =>
    match acquire c pid i with
    | none => .error .sleeps
    | some c => .ok ({ m with cache := fill c m.disk i }, i)

def bwrite (m : Mem) (pid i : Nat) : Except Halt Mem :=
  if (m.cache.buf i).lock = some pid then
    .ok { m with disk :=
      Function.update m.disk (m.cache.buf i).blockno (m.cache.buf i).data }
  else
    .error (.panic .bwrite)

def release (m : Mem) (pid i : Nat) : Except Halt Mem :=
  match brelse m.cache pid i with
  | .error p => .error (.panic p)
  | .ok c => .ok { m with cache := c }

def unpin (m : Mem) (i : Nat) : Mem :=
  { m with cache := bunpin m.cache i }

def setData (m : Mem) (i : Nat) (v : Block) : Mem :=
  { m with cache := m.cache.set i { m.cache.buf i with data := v } }

def copyData (m : Mem) (dst src : Nat) : Mem :=
  setData m dst (m.cache.buf src).data

/-!
## The functions of `log.c`
-/

def writeLogBody (pid : Nat) (log : LogState) (m : Mem) (tail : Nat) :
    Except Halt Mem := do
  let (m, dst) ← bread m pid log.dev (log.start + tail + 1)
  let (m, src) ← bread m pid log.dev (log.lh.getD tail 0)
  let m ← bwrite (copyData m dst src) pid dst
  let m ← release m pid src
  release m pid dst

def writeLog (pid : Nat) (log : LogState) (m : Mem) : Except Halt Mem :=
  (List.range log.lh.length).foldlM (writeLogBody pid log) m

def installBody (pid : Nat) (recovering : Bool) (log : LogState) (m : Mem)
    (tail : Nat) : Except Halt Mem := do
  let (m, lbuf) ← bread m pid log.dev (log.start + tail + 1)
  let (m, dbuf) ← bread m pid log.dev (log.lh.getD tail 0)
  let m ← bwrite (copyData m dbuf lbuf) pid dbuf
  let m := if recovering then m else unpin m dbuf
  let m ← release m pid lbuf
  release m pid dbuf

def installTrans (pid : Nat) (recovering : Bool) (log : LogState) (m : Mem) :
    Except Halt Mem :=
  (List.range log.lh.length).foldlM (installBody pid recovering log) m

def writeHead (pid : Nat) (log : LogState) (m : Mem) : Except Halt Mem := do
  let (m, buf) ← bread m pid log.dev log.start
  let m ← bwrite (setData m buf (putHead (m.cache.buf buf).data log.lh)) pid buf
  release m pid buf

def readHead (pid : Nat) (log : LogState) (m : Mem) : Except Halt (LogState × Mem) := do
  let (m, buf) ← bread m pid log.dev log.start
  let log := { log with lh := readHeadBlock (m.cache.buf buf).data }
  let m ← release m pid buf
  return (log, m)

def commit (pid : Nat) (log : LogState) (m : Mem) : Except Halt (LogState × Mem) := do
  if 0 < log.lh.length then
    let m ← writeLog pid log m
    let m ← writeHead pid log m
    let m ← installTrans pid false log m
    let log := { log with lh := [] }
    let m ← writeHead pid log m
    return (log, m)
  else
    return (log, m)

def recoverFromLog (pid : Nat) (log : LogState) (m : Mem) :
    Except Halt (LogState × Mem) := do
  let (log, m) ← readHead pid log m
  let m ← installTrans pid true log m
  let log := { log with lh := [] }
  let m ← writeHead pid log m
  return (log, m)

/-!
## Micro-operations

Between two consecutive disk writes of a commit or of a recovery no other
process writes the disk.  The pieces below each make at most one disk write and
run one after the other; a crash falls between two of them.
-/

inductive Micro where
  | writeLog (tail : Nat)
  | writeHead
  | install (recovering : Bool) (tail : Nat)
  | clear
deriving DecidableEq, Repr

def microStep (pid : Nat) : LogState × Mem -> Micro -> Except Halt (LogState × Mem)
  | (log, m), .writeLog tail => (writeLogBody pid log m tail).map (fun m => (log, m))
  | (log, m), .writeHead => (writeHead pid log m).map (fun m => (log, m))
  | (log, m), .install recovering tail =>
    (installBody pid recovering log m tail).map (fun m => (log, m))
  | (log, m), .clear => .ok ({ log with lh := [] }, m)

def installProg (recovering : Bool) (n : Nat) : List Micro :=
  (List.range n).map (Micro.install recovering) ++ [.clear, .writeHead]

def commitProg (n : Nat) : List Micro :=
  if 0 < n then
    (List.range n).map Micro.writeLog ++ .writeHead :: installProg false n
  else
    []

theorem foldlM_micro {pid : Nat} {log : LogState} (f : Nat -> Micro)
    (body : Mem -> Nat -> Except Halt Mem)
    (hbody : forall m i, microStep pid (log, m) (f i) = (body m i).map (fun m => (log, m)))
    (is : List Nat) (m : Mem) :
    (is.map f).foldlM (microStep pid) (log, m) =
      (is.foldlM body m).map (fun m => (log, m)) := by
  induction is generalizing m with
  | nil =>
    rfl
  | cons i rest ih =>
    simp only [List.map_cons, List.foldlM_cons, hbody]
    cases hstep : body m i with
    | error e =>
      rfl
    | ok m' =>
      exact ih m'

theorem installProg_eq (pid : Nat) (recovering : Bool) (log : LogState) (m : Mem) :
    (installProg recovering log.lh.length).foldlM (microStep pid) (log, m) =
      (do
        let m ← installTrans pid recovering log m
        let m ← writeHead pid { log with lh := [] } m
        return ({ log with lh := [] }, m)) := by
  rw [installProg, List.foldlM_append,
    foldlM_micro (Micro.install recovering) (installBody pid recovering log)
      (fun _ _ => rfl)]
  unfold installTrans
  cases (List.range log.lh.length).foldlM (installBody pid recovering log) m with
  | error e =>
    rfl
  | ok m =>
    simp only [Except.map, bind, Except.bind, List.foldlM_cons, List.foldlM_nil,
      microStep]
    cases writeHead pid { log with lh := [] } m <;> rfl

theorem commitProg_eq (pid : Nat) (log : LogState) (m : Mem) :
    (commitProg log.lh.length).foldlM (microStep pid) (log, m) = commit pid log m := by
  unfold commitProg commit
  by_cases hpos : 0 < log.lh.length
  · rw [if_pos hpos, if_pos hpos, List.foldlM_append,
      foldlM_micro Micro.writeLog (writeLogBody pid log) (fun _ _ => rfl)]
    unfold writeLog
    cases (List.range log.lh.length).foldlM (writeLogBody pid log) m with
    | error e =>
      rfl
    | ok m =>
      simp only [Except.map, bind, Except.bind, List.foldlM_cons, microStep]
      cases writeHead pid log m with
      | error e =>
        rfl
      | ok m =>
        exact installProg_eq pid false log m
  · rw [if_neg hpos, if_neg hpos]
    rfl

theorem recoverProg_eq (pid : Nat) (log : LogState) (m : Mem) :
    (do
      let (log, m) ← readHead pid log m
      (installProg true log.lh.length).foldlM (microStep pid) (log, m)) =
      recoverFromLog pid log m := by
  unfold recoverFromLog
  cases readHead pid log m with
  | error e =>
    rfl
  | ok r =>
    exact installProg_eq pid true r.1 r.2

end Log
end Xv6
