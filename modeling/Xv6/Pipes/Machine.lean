import Xv6.Lib.Circular
import Xv6.Lib.Transition
import Mathlib.Data.List.Range

/-!
# Pipes

The functions of `pipe.c` as a machine in which any number of processes run
`pipewrite`, `piperead`, `pipeclose` and `kkill` on one pipe.  A step is one
critical action: taking or releasing `pi->lock`, one iteration of a copy loop,
one process visited by `wakeup`, or one part of `sleep`.  An iteration runs under
`pi->lock`, so nothing that reads the pipe can come between its parts, and
`killed` is tested at most once in it.
-/

namespace Xv6
namespace Pipes

open Lib

def PIPESIZE : Nat := 512

def WORD : Nat := 2 ^ 32

structure Pipe extends Circular UInt8 where
  readopen : Bool
  writeopen : Bool

inductive Chan where
  | nread
  | nwrite
deriving DecidableEq, Repr

namespace Pipe

def store (pi : Pipe) (ch : UInt8) : Pipe :=
  { pi with toCircular := pi.toCircular.put PIPESIZE WORD ch }

def take (pi : Pipe) : Pipe :=
  { pi with toCircular := pi.toCircular.advance WORD }

def head (pi : Pipe) : UInt8 :=
  pi.toCircular.front PIPESIZE

def Empty (pi : Pipe) : Prop :=
  pi.nread = pi.nwrite

def Full (pi : Pipe) : Prop :=
  pi.nwrite = (pi.nread + PIPESIZE) % WORD

instance (pi : Pipe) : Decidable pi.Empty :=
  inferInstanceAs (Decidable (_ = _))

instance (pi : Pipe) : Decidable pi.Full :=
  inferInstanceAs (Decidable (_ = _))

def closeEnd (pi : Pipe) (writable : Bool) : Pipe :=
  if writable then { pi with writeopen := false } else { pi with readopen := false }

def Blocked (pi : Pipe) : Chan -> Prop
  | .nread => pi.Empty ∧ pi.writeopen = true
  | .nwrite => pi.Full ∧ pi.readopen = true

end Pipe

/-!
## Program points

`Entry` is what a process does once it has `pi->lock`, at the start of a call or
after a sleep, and `Body` lists the points at which it holds the lock and uses
the pipe.  A `Writer` has two fields the code does not: the number of its call,
and `pending`, set while bytes have been stored since `pi->lock` was taken.
-/

structure Writer where
  call : Nat
  n : Int
  i : Nat
  pending : Bool
deriving DecidableEq, Repr

inductive Entry where
  | write (w : Writer)
  | read (n : Int)
  | close (writable : Bool)
deriving DecidableEq, Repr

inductive Body where
  | writeLoop (w : Writer)
  | readLoop (n : Int)
  | readFor (n : Int) (i : Nat)
  | close (writable : Bool)
  | closed
  | ret (r : Int)
  -- `good` says that no `copyout` of the call has failed
  | readRet (n : Int) (r : Nat) (good : Bool)
deriving DecidableEq, Repr

def Entry.body : Entry -> Body
  | .write w => .writeLoop { w with pending := false }
  | .read n => .readLoop n
  | .close writable => .close writable

inductive After where
  | body (b : Body)
  | sleep (c : Chan) (e : Entry)
deriving DecidableEq, Repr

inductive Pc where
  -- outside the four functions
  | idle
  -- in `acquire(&pi->lock)`
  | lock (e : Entry)
  | body (b : Body)
  -- `wakeup(c)` is about to visit slot `j`
  | wake (c : Chan) (j : Nat) (k : After)
  -- `sleep`: before `acquire(&p->lock)`, `release(lk)`, the change of state and `sched()`
  | sleepEnter (c : Chan) (e : Entry)
  | sleepUnlock (c : Chan) (e : Entry)
  | sleepSet (c : Chan) (e : Entry)
  | sleepSched (c : Chan) (e : Entry)
  -- switched out
  | asleep (c : Chan) (e : Entry)
deriving DecidableEq, Repr

def After.pc : After -> Pc
  | .body b => .body b
  | .sleep c e => .sleepEnter c e

def Pc.holdsPipe : Pc -> Bool
  | .body _ => true
  | .wake _ _ _ => true
  | .sleepEnter _ _ => true
  | .sleepUnlock _ _ => true
  | _ => false

/-- The points at which a process holds its own `p->lock` between steps. -/
def Pc.holdsOwn : Pc -> Bool
  | .sleepUnlock _ _ => true
  | .sleepSet _ _ => true
  | .sleepSched _ _ => true
  | _ => false

/-!
## One iteration

`Copy` is the outcome of the `copyin` or `copyout` of one byte.
-/

inductive Copy where
  | ok (ch : UInt8)
  | bad
deriving DecidableEq, Repr

structure Stored where
  call : Nat
  index : Nat
  byte : UInt8
deriving DecidableEq, Repr

inductive Event where
  | none
  | stored (e : Stored)
  | taken (ch : UInt8)
deriving DecidableEq, Repr

def pipewriteIter (pi : Pipe) (killed : Bool) (w : Writer) (c : Copy) : Pipe × Pc × Event :=
  if (w.i : Int) < w.n then
    if pi.readopen = false ∨ killed = true then
      (pi, .body (.ret (-1)), .none)
    else if pi.Full then
      (pi, .wake .nread 0 (.sleep .nwrite (.write w)), .none)
    else
      match c with
      | .bad => (pi, .wake .nread 0 (.body (.ret w.i)), .none)
      | .ok ch =>
        (pi.store ch, .body (.writeLoop { w with i := w.i + 1, pending := true }),
          .stored { call := w.call, index := w.i, byte := ch })
  else
    (pi, .wake .nread 0 (.body (.ret w.i)), .none)

def pipereadWait (pi : Pipe) (killed : Bool) (n : Int) : Pipe × Pc × Event :=
  if pi.Empty ∧ pi.writeopen = true then
    if killed = true then
      (pi, .body (.ret (-1)), .none)
    else
      (pi, .sleepEnter .nread (.read n), .none)
  else
    (pi, .body (.readFor n 0), .none)

def pipereadIter (pi : Pipe) (n : Int) (i : Nat) (c : Copy) : Pipe × Pc × Event :=
  if (i : Int) < n then
    if pi.Empty then
      (pi, .wake .nwrite 0 (.body (.readRet n i true)), .none)
    else
      match c with
      | .bad => (pi.take, .wake .nwrite 0 (.body (.readRet n i false)), .taken pi.head)
      | .ok _ => (pi.take, .body (.readFor n (i + 1)), .taken pi.head)
  else
    (pi, .wake .nwrite 0 (.body (.readRet n i true)), .none)

def pipecloseSet (pi : Pipe) (writable : Bool) : Pipe × Pc × Event :=
  (pi.closeEnd writable,
    .wake (if writable then .nread else .nwrite) 0 (.body .closed), .none)

/-- One step of a process that holds `pi->lock`, up to the release. -/
def work (pi : Pipe) (killed : Bool) (c : Copy) : Body -> Option (Pipe × Pc × Event)
  | .writeLoop w => some (pipewriteIter pi killed w c)
  | .readLoop n => some (pipereadWait pi killed n)
  | .readFor n i => some (pipereadIter pi n i c)
  | .close writable => some (pipecloseSet pi writable)
  | _ => none

/-- `pipeclose` frees the page of the pipe when both ends are closed. -/
def Body.frees (pi : Pipe) : Body -> Bool
  | .closed => !pi.readopen && !pi.writeopen
  | _ => false

/-!
## The machine

`stored` and `taken` are histories, `calls` numbers the calls of `pipewrite`.
When both ends are closed the page of the pipe is freed and `pi->lock` is gone.
-/

inductive ProcState where
  | running
  | runnable
  | sleeping
deriving DecidableEq, Repr

structure Proc where
  pc : Pc
  state : ProcState
  chan : Option Chan
  killed : Bool

structure Sys (nproc : Nat) where
  pipe : Pipe
  lock : Option (Fin nproc)
  procs : Fin nproc -> Proc
  freed : Bool
  calls : Nat
  stored : List Stored
  taken : List UInt8

inductive Action where
  | pipewrite (n : Int)
  | piperead (n : Int)
  | pipeclose (writable : Bool)
  | kkill (victim : Nat)
  -- the process goes on; `c` is the outcome of a copy, should it make one
  | go (c : Copy)

namespace Sys

variable {nproc : Nat}

def setProc (s : Sys nproc) (p : Fin nproc) (q : Proc) : Sys nproc :=
  { s with procs := Function.update s.procs p q }

def goto (s : Sys nproc) (p : Fin nproc) (pc : Pc) : Sys nproc :=
  s.setProc p { s.procs p with pc := pc }

def record (s : Sys nproc) : Event -> Sys nproc
  | .none => s
  | .stored e => { s with stored := s.stored ++ [e] }
  | .taken ch => { s with taken := s.taken ++ [ch] }

def wakeOne (s : Sys nproc) (c : Chan) (v : Fin nproc) : Sys nproc :=
  if (s.procs v).state = .sleeping ∧ (s.procs v).chan = some c then
    s.setProc v { s.procs v with state := .runnable }
  else
    s

def killOne (s : Sys nproc) (v : Fin nproc) : Sys nproc :=
  s.setProc v
    { s.procs v with
      killed := true
      state := if (s.procs v).state = .sleeping then .runnable else (s.procs v).state }

def unlock (s : Sys nproc) : Sys nproc :=
  { s with lock := none }

def advance (s : Sys nproc) (p : Fin nproc) (c : Copy) : Option (Sys nproc) :=
  match (s.procs p).pc with
  | .idle => none
  | .lock e =>
    if s.lock = none ∧ s.freed = false then
      some { s.goto p (.body e.body) with lock := some p }
    else
      none
  | .body b =>
    match work s.pipe (s.procs p).killed c b with
    | some r => some (({ s with pipe := r.1 }.goto p r.2.1).record r.2.2)
    | none => some ({ s.unlock with freed := b.frees s.pipe }.goto p .idle)
  | .wake ch j k =>
    if h : j < nproc then
      if j = p then
        some (s.goto p (.wake ch (j + 1) k))
      else if (s.procs ⟨j, h⟩).pc.holdsOwn = true then
        none
      else
        some ((s.wakeOne ch ⟨j, h⟩).goto p (.wake ch (j + 1) k))
    else
      some (s.goto p k.pc)
  | .sleepEnter ch e => some (s.goto p (.sleepUnlock ch e))
  | .sleepUnlock ch e => some (s.unlock.goto p (.sleepSet ch e))
  | .sleepSet ch e =>
    some (s.setProc p
      { s.procs p with
        pc := .sleepSched ch e
        state := .sleeping
        chan := some ch })
  | .sleepSched ch e => some (s.goto p (.asleep ch e))
  | .asleep _ e =>
    if (s.procs p).state = .runnable then
      some (s.setProc p
        { s.procs p with
          pc := .lock e
          state := .running
          chan := none })
    else
      none

def enter (s : Sys nproc) (p : Fin nproc) (e : Entry) : Option (Sys nproc) :=
  if (s.procs p).pc = .idle then some (s.goto p (.lock e)) else none

def step (s : Sys nproc) (p : Fin nproc) : Action -> Option (Sys nproc)
  | .pipewrite n =>
    { s with calls := s.calls + 1 }.enter p
      (.write { call := s.calls, n := n, i := 0, pending := false })
  | .piperead n => s.enter p (.read n)
  | .pipeclose writable => s.enter p (.close writable)
  | .kkill v =>
    if (s.procs p).pc = .idle then
      if h : v < nproc then
        if (s.procs ⟨v, h⟩).pc.holdsOwn = true then none else some (s.killOne ⟨v, h⟩)
      else
        some s
    else
      none
  | .go c => s.advance p c

/-- A pipe as `pipealloc` leaves it, with no process in it. -/
structure Fresh (s : Sys nproc) : Prop where
  nread : s.pipe.nread = 0
  nwrite : s.pipe.nwrite = 0
  readopen : s.pipe.readopen = true
  writeopen : s.pipe.writeopen = true
  lock : s.lock = none
  pc : forall p, (s.procs p).pc = .idle
  state : forall p, (s.procs p).state = .running
  stored : s.stored = []
  taken : s.taken = []

def booted (nproc : Nat) : Sys nproc :=
  {
    pipe := {
      cells := fun _ => 0
      nread := 0
      nwrite := 0
      readopen := true
      writeopen := true
    }
    lock := none
    procs := fun _ => { pc := .idle, state := .running, chan := none, killed := false }
    freed := false
    calls := 0
    stored := []
    taken := []
  }

theorem fresh_booted (nproc : Nat) : (booted nproc).Fresh :=
  ⟨rfl, rfl, rfl, rfl, rfl, fun _ => rfl, fun _ => rfl, rfl, rfl⟩

end Sys

def system (nproc : Nat) : System (Sys nproc) (Fin nproc × Action) where
  init := Sys.Fresh
  step := fun s l s' => s.step l.1 l.2 = some s'

/-!
## Steps

Every step is one of the following moves; each lists what it needed.
-/

namespace Sys

variable {nproc : Nat}

inductive Move (s : Sys nproc) (p : Fin nproc) : Sys nproc -> Prop where
  | write (n : Int) : (s.procs p).pc = .idle ->
      Move s p ({ s with calls := s.calls + 1 }.goto p
        (.lock (.write { call := s.calls, n := n, i := 0, pending := false })))
  | read (n : Int) : (s.procs p).pc = .idle -> Move s p (s.goto p (.lock (.read n)))
  | close (writable : Bool) : (s.procs p).pc = .idle ->
      Move s p (s.goto p (.lock (.close writable)))
  | kill (v : Fin nproc) : (s.procs v).pc.holdsOwn = false -> Move s p (s.killOne v)
  | nobody : Move s p s
  | acquire (e : Entry) : (s.procs p).pc = .lock e -> s.lock = none ->
      Move s p { s.goto p (.body e.body) with lock := some p }
  | work (c : Copy) (b : Body) (r : Pipe × Pc × Event) : (s.procs p).pc = .body b ->
      Pipes.work s.pipe (s.procs p).killed c b = some r ->
      Move s p (({ s with pipe := r.1 }.goto p r.2.1).record r.2.2)
  | release (c : Copy) (b : Body) : (s.procs p).pc = .body b ->
      Pipes.work s.pipe (s.procs p).killed c b = none ->
      Move s p ({ s.unlock with freed := b.frees s.pipe }.goto p .idle)
  | skip (c : Chan) (k : After) : (s.procs p).pc = .wake c p k ->
      Move s p (s.goto p (.wake c (p + 1) k))
  | visit (c : Chan) (v : Fin nproc) (k : After) : (s.procs p).pc = .wake c v k -> v ≠ p ->
      (s.procs v).pc.holdsOwn = false ->
      Move s p ((s.wakeOne c v).goto p (.wake c (v + 1) k))
  | woken (c : Chan) (j : Nat) (k : After) : (s.procs p).pc = .wake c j k -> nproc <= j ->
      Move s p (s.goto p k.pc)
  | sleepEnter (c : Chan) (e : Entry) : (s.procs p).pc = .sleepEnter c e ->
      Move s p (s.goto p (.sleepUnlock c e))
  | sleepUnlock (c : Chan) (e : Entry) : (s.procs p).pc = .sleepUnlock c e ->
      Move s p (s.unlock.goto p (.sleepSet c e))
  | sleepSet (c : Chan) (e : Entry) : (s.procs p).pc = .sleepSet c e ->
      Move s p (s.setProc p
        { s.procs p with
          pc := .sleepSched c e
          state := .sleeping
          chan := some c })
  | sleepSched (c : Chan) (e : Entry) : (s.procs p).pc = .sleepSched c e ->
      Move s p (s.goto p (.asleep c e))
  | resume (c : Chan) (e : Entry) : (s.procs p).pc = .asleep c e ->
      Move s p (s.setProc p
        { s.procs p with
          pc := .lock e
          state := .running
          chan := none })

theorem advance_move {s s' : Sys nproc} {p : Fin nproc} {c : Copy}
    (h : s.advance p c = some s') : Move s p s' := by
  unfold advance at h
  split at h
  · cases h
  · next e hpc =>
      split at h
      · next hfree =>
          cases h
          exact .acquire e hpc hfree.1
      · cases h
  · next b hpc =>
      split at h
      · next r hr =>
          cases h
          exact .work c b r hpc hr
      · next hr =>
          cases h
          exact .release c b hpc hr
  · next ch j k hpc =>
      split at h
      · next hj =>
          split at h
          · next heq =>
              cases h
              subst heq
              exact .skip ch k hpc
          · next hne =>
              split at h
              · cases h
              · next hown =>
                  cases h
                  refine .visit ch ⟨j, hj⟩ k hpc ?_ (by simpa using hown)
                  intro heq
                  exact hne (congrArg Fin.val heq)
      · next hj =>
          cases h
          exact .woken ch j k hpc (by omega)
  · next ch e hpc =>
      cases h
      exact .sleepEnter ch e hpc
  · next ch e hpc =>
      cases h
      exact .sleepUnlock ch e hpc
  · next ch e hpc =>
      cases h
      exact .sleepSet ch e hpc
  · next ch e hpc =>
      cases h
      exact .sleepSched ch e hpc
  · next ch e hpc =>
      split at h
      · cases h
        exact .resume ch e hpc
      · cases h

theorem step_move {s s' : Sys nproc} {p : Fin nproc} {a : Action}
    (h : s.step p a = some s') : Move s p s' := by
  cases a with
  | pipewrite n =>
    simp only [step, enter] at h
    split at h
    · next hidle =>
        cases h
        exact .write n hidle
    · cases h
  | piperead n =>
    simp only [step, enter] at h
    split at h
    · next hidle =>
        cases h
        exact .read n hidle
    · cases h
  | pipeclose writable =>
    simp only [step, enter] at h
    split at h
    · next hidle =>
        cases h
        exact .close writable hidle
    · cases h
  | kkill v =>
    simp only [step] at h
    split at h
    · split at h
      · next hv =>
          split at h
          · cases h
          · next hown =>
              cases h
              exact .kill ⟨v, hv⟩ (by simpa using hown)
      · cases h
        exact .nobody
    · cases h
  | go c => exact advance_move h

@[simp]
theorem goto_pc_self (s : Sys nproc) (p : Fin nproc) (pc : Pc) :
    ((s.goto p pc).procs p).pc = pc := by
  simp [goto, setProc]

@[simp]
theorem setProc_self (s : Sys nproc) (p : Fin nproc) (x : Proc) :
    (s.setProc p x).procs p = x := by
  simp [setProc]

@[simp]
theorem goto_pipe (s : Sys nproc) (p : Fin nproc) (pc : Pc) : (s.goto p pc).pipe = s.pipe :=
  rfl

@[simp]
theorem goto_lock (s : Sys nproc) (p : Fin nproc) (pc : Pc) : (s.goto p pc).lock = s.lock :=
  rfl

theorem setProc_ne (s : Sys nproc) {p q : Fin nproc} (x : Proc) (h : q ≠ p) :
    (s.setProc p x).procs q = s.procs q := by
  simp [setProc, h]

theorem goto_ne (s : Sys nproc) {p q : Fin nproc} (pc : Pc) (h : q ≠ p) :
    (s.goto p pc).procs q = s.procs q :=
  setProc_ne s _ h

@[simp]
theorem record_procs (s : Sys nproc) (e : Event) : (s.record e).procs = s.procs := by
  cases e <;> rfl

@[simp]
theorem record_pipe (s : Sys nproc) (e : Event) : (s.record e).pipe = s.pipe := by
  cases e <;> rfl

@[simp]
theorem record_lock (s : Sys nproc) (e : Event) : (s.record e).lock = s.lock := by
  cases e <;> rfl

@[simp]
theorem wakeOne_pc (s : Sys nproc) (c : Chan) (v q : Fin nproc) :
    ((s.wakeOne c v).procs q).pc = (s.procs q).pc := by
  unfold wakeOne
  split
  · rcases eq_or_ne q v with rfl | hne
    · simp
    · rw [setProc_ne _ _ hne]
  · rfl

@[simp]
theorem wakeOne_pipe (s : Sys nproc) (c : Chan) (v : Fin nproc) :
    (s.wakeOne c v).pipe = s.pipe := by
  unfold wakeOne
  split <;> rfl

@[simp]
theorem wakeOne_lock (s : Sys nproc) (c : Chan) (v : Fin nproc) :
    (s.wakeOne c v).lock = s.lock := by
  unfold wakeOne
  split <;> rfl

@[simp]
theorem killOne_pc (s : Sys nproc) (v q : Fin nproc) :
    ((s.killOne v).procs q).pc = (s.procs q).pc := by
  unfold killOne
  rcases eq_or_ne q v with rfl | hne
  · simp
  · rw [setProc_ne _ _ hne]

end Sys

/-!
## What the holder of the lock knows

The lock is held exactly by the process whose program point says so.  What a
process saw of the pipe stays true while it holds the lock.
-/

def Body.Knows (pi : Pipe) : Body -> Prop
  | .writeLoop w => w.pending = true -> pi.readopen = true
  | .readFor _ i => i = 0 -> pi.Empty -> pi.writeopen = false
  | .readRet n r good => 0 < n -> good = true -> r = 0 -> pi.Empty ∧ pi.writeopen = false
  | _ => True

def After.Knows (pi : Pipe) : After -> Prop
  | .body b => b.Knows pi
  | .sleep c _ => pi.Blocked c

def Pc.Knows (pi : Pipe) : Pc -> Prop
  | .body b => b.Knows pi
  | .wake _ _ k => k.Knows pi
  | .sleepEnter c _ => pi.Blocked c
  | .sleepUnlock c _ => pi.Blocked c
  | _ => True

theorem Pc.knows_of_not_holds {pc : Pc} (h : pc.holdsPipe = false) (pi : Pipe) :
    pc.Knows pi := by
  cases pc <;> trivial

theorem After.knows_pc {k : After} {pi : Pipe} (h : k.Knows pi) : k.pc.Knows pi := by
  cases k <;> exact h

theorem After.holds_pc (k : After) : k.pc.holdsPipe = true := by
  cases k <;> rfl

theorem Entry.knows_body (e : Entry) (pi : Pipe) : e.body.Knows pi := by
  cases e <;> simp [Entry.body, Body.Knows]

theorem work_knows {pi : Pipe} {killed : Bool} {c : Copy} {b : Body} {r : Pipe × Pc × Event}
    (h : work pi killed c b = some r) (hb : b.Knows pi) :
    r.2.1.holdsPipe = true ∧ r.2.1.Knows r.1 := by
  cases b with
  | writeLoop w =>
    simp only [work, Option.some.injEq] at h
    subst h
    unfold pipewriteIter
    split
    · split
      · exact ⟨rfl, trivial⟩
      · next hopen =>
          have hread : pi.readopen = true := by simp_all
          split
          · next hfull => exact ⟨rfl, hfull, hread⟩
          · cases c with
            | bad => exact ⟨rfl, trivial⟩
            | ok ch => exact ⟨rfl, fun _ => hread⟩
    · exact ⟨rfl, trivial⟩
  | readLoop n =>
    simp only [work, Option.some.injEq] at h
    subst h
    unfold pipereadWait
    split
    · next hblocked =>
        split
        · exact ⟨rfl, trivial⟩
        · exact ⟨rfl, hblocked⟩
    · next hgo =>
        refine ⟨rfl, fun _ hempty => ?_⟩
        by_contra hopen
        exact hgo ⟨hempty, by simpa using hopen⟩
  | readFor n i =>
    simp only [work, Option.some.injEq] at h
    subst h
    unfold pipereadIter
    split
    · split
      · next hempty => exact ⟨rfl, fun _ _ hi => ⟨hempty, hb hi hempty⟩⟩
      · cases c with
        | bad => exact ⟨rfl, fun _ hgood => by cases hgood⟩
        | ok ch => exact ⟨rfl, fun hi => by cases hi⟩
    · next hi => exact ⟨rfl, fun hn _ hr => absurd (by omega) hi⟩
  | close writable =>
    simp only [work, Option.some.injEq] at h
    subst h
    exact ⟨rfl, trivial⟩
  | closed => cases h
  | ret r => cases h
  | readRet n r good => cases h

structure LockInv {nproc : Nat} (s : Sys nproc) : Prop where
  holder : forall q, s.lock = some q <-> (s.procs q).pc.holdsPipe = true
  knows : forall q, (s.procs q).pc.Knows s.pipe

namespace LockInv

variable {nproc : Nat} {s s' : Sys nproc} {p : Fin nproc}

section

variable (h : LockInv s)
include h

theorem not_holds {q : Fin nproc} (hp : s.lock = some p) (hne : q ≠ p) :
    (s.procs q).pc.holdsPipe = false := by
  rw [Bool.eq_false_iff]
  intro hq
  rw [← h.holder q, hp] at hq
  exact hne (Option.some.inj hq).symm

theorem lock_eq (hp : (s.procs p).pc.holdsPipe = true) : s.lock = some p :=
  (h.holder p).2 hp

theorem of_same (hpipe : s'.pipe = s.pipe) (hlock : s'.lock = s.lock)
    (hpc : forall q, q ≠ p -> (s'.procs q).pc = (s.procs q).pc)
    (hholds : (s'.procs p).pc.holdsPipe = (s.procs p).pc.holdsPipe)
    (hknows : (s'.procs p).pc.Knows s.pipe) : LockInv s' := by
  constructor
  · intro q
    rw [hlock, h.holder q]
    rcases eq_or_ne q p with rfl | hne
    · rw [hholds]
    · rw [hpc q hne]
  · intro q
    rw [hpipe]
    rcases eq_or_ne q p with rfl | hne
    · exact hknows
    · rw [hpc q hne]
      exact h.knows q

theorem setProc {x : Proc} (hholds : x.pc.holdsPipe = (s.procs p).pc.holdsPipe)
    (hknows : x.pc.Knows s.pipe) : LockInv (s.setProc p x) := by
  refine h.of_same (p := p) rfl rfl ?_ ?_ ?_
  · intro q hne
    rw [Sys.setProc_ne _ _ hne]
  · rw [Sys.setProc_self, hholds]
  · rw [Sys.setProc_self]
    exact hknows

theorem goto {pc : Pc} (hholds : pc.holdsPipe = (s.procs p).pc.holdsPipe)
    (hknows : pc.Knows s.pipe) : LockInv (s.goto p pc) :=
  h.setProc hholds hknows

theorem of_unlock (hp : s.lock = some p) (hlock : s'.lock = none)
    (hpc : forall q, q ≠ p -> (s'.procs q).pc = (s.procs q).pc)
    (hholds : (s'.procs p).pc.holdsPipe = false) : LockInv s' := by
  have hnone : forall q, (s'.procs q).pc.holdsPipe = false := by
    intro q
    rcases eq_or_ne q p with rfl | hne
    · exact hholds
    · rw [hpc q hne]
      exact h.not_holds hp hne
  constructor
  · intro q
    simp [hlock, hnone q]
  · intro q
    exact Pc.knows_of_not_holds (hnone q) _

theorem of_holder (hp : s.lock = some p ∨ s.lock = none) (hlock : s'.lock = some p)
    (hpc : forall q, q ≠ p -> (s'.procs q).pc = (s.procs q).pc)
    (hholds : (s'.procs p).pc.holdsPipe = true)
    (hknows : (s'.procs p).pc.Knows s'.pipe) : LockInv s' := by
  have hother : forall q, q ≠ p -> (s'.procs q).pc.holdsPipe = false := by
    intro q hne
    rw [hpc q hne, Bool.eq_false_iff]
    intro hq
    have hlq := (h.holder q).2 hq
    rcases hp with hp | hp
    · rw [hp] at hlq
      exact hne (Option.some.inj hlq).symm
    · rw [hp] at hlq
      cases hlq
  constructor
  · intro q
    rcases eq_or_ne q p with rfl | hne
    · simp [hlock, hholds]
    · rw [hlock, hother q hne]
      simp [Ne.symm hne]
  · intro q
    rcases eq_or_ne q p with rfl | hne
    · exact hknows
    · exact Pc.knows_of_not_holds (hother q hne) _

theorem wakeOne (c : Chan) (v : Fin nproc) : LockInv (s.wakeOne c v) := by
  constructor
  · intro q
    rw [Sys.wakeOne_lock, Sys.wakeOne_pc]
    exact h.holder q
  · intro q
    rw [Sys.wakeOne_pipe, Sys.wakeOne_pc]
    exact h.knows q

theorem move (hmove : s.Move p s') : LockInv s' := by
  have hother : forall (t : Sys nproc) (pc : Pc) (q : Fin nproc), q ≠ p ->
      ((t.goto p pc).procs q).pc = (t.procs q).pc := by
    intro t pc q hne
    rw [Sys.goto_ne _ _ hne]
  have hknows := h.knows p
  cases hmove with
  | write n hpc =>
    have hcalls : LockInv { s with calls := s.calls + 1 } := ⟨h.holder, h.knows⟩
    exact hcalls.goto (by rw [hpc]; rfl) trivial
  | read n hpc => exact h.goto (by rw [hpc]; rfl) trivial
  | close writable hpc => exact h.goto (by rw [hpc]; rfl) trivial
  | kill v hown => exact h.setProc rfl (h.knows v)
  | nobody => exact h
  | acquire e hpc hfree =>
    refine h.of_holder (p := p) (.inr hfree) rfl (hother _ _) ?_ ?_
    · rw [show (Sys.procs _ p).pc = .body e.body from Sys.goto_pc_self _ _ _]
      rfl
    · rw [show (Sys.procs _ p).pc = .body e.body from Sys.goto_pc_self _ _ _]
      exact e.knows_body s.pipe
  | work c b r hpc hr =>
    have hlock := h.lock_eq (p := p) (by rw [hpc]; rfl)
    rw [hpc] at hknows
    have hnew := work_knows hr hknows
    refine h.of_holder (p := p) (.inl hlock) (by simpa using hlock) ?_ ?_ ?_
    · intro q hne
      rw [Sys.record_procs, Sys.goto_ne _ _ hne]
    · simpa using hnew.1
    · simpa using hnew.2
  | release c b hpc hr =>
    have hlock := h.lock_eq (p := p) (by rw [hpc]; rfl)
    exact h.of_unlock hlock rfl (hother _ _) (by rw [Sys.goto_pc_self]; rfl)
  | skip c k hpc =>
    rw [hpc] at hknows
    exact h.goto (by rw [hpc]; rfl) hknows
  | visit c v k hpc hne hown =>
    rw [hpc] at hknows
    refine (h.wakeOne c v).goto ?_ ?_
    · rw [Sys.wakeOne_pc, hpc]
      rfl
    · rw [Sys.wakeOne_pipe]
      exact hknows
  | woken c j k hpc hj =>
    rw [hpc] at hknows
    exact h.goto (by rw [hpc, k.holds_pc]; rfl) (After.knows_pc hknows)
  | sleepEnter c e hpc =>
    rw [hpc] at hknows
    exact h.goto (by rw [hpc]; rfl) hknows
  | sleepUnlock c e hpc =>
    have hlock := h.lock_eq (p := p) (by rw [hpc]; rfl)
    exact h.of_unlock hlock rfl (hother _ _) (by rw [Sys.goto_pc_self]; rfl)
  | sleepSet c e hpc => exact h.setProc (by rw [hpc]; rfl) trivial
  | sleepSched c e hpc => exact h.goto (by rw [hpc]; rfl) trivial
  | resume c e hpc => exact h.setProc (by rw [hpc]; rfl) trivial

end

theorem of_fresh (h : s.Fresh) : LockInv s := by
  constructor
  · intro q
    simp [h.lock, h.pc q, Pc.holdsPipe]
  · intro q
    rw [h.pc q]
    trivial

end LockInv

theorem lockInv_reachable {nproc : Nat} {s : Sys nproc}
    {ok : Sys nproc -> Fin nproc × Action -> Prop}
    (h : (system nproc).ReachableVia ok s) : LockInv s :=
  h.invariant (fun _ => LockInv.of_fresh) fun _ _ _ hinv _ hstep => hinv.move (Sys.step_move hstep)

end Pipes
end Xv6
