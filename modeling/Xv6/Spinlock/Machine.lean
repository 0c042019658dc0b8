import Xv6.Lib.Transition
import Mathlib.Logic.Function.Basic

/-!
# The interrupt state of the CPUs

`push_off` and `pop_off` of `spinlock.c` and the places that move a kernel thread
between CPUs: `sched`, `scheduler` and the first `swtch` to `forkret`.

`acquire` is `push_off` and then a wait with interrupts off, and `release` ends with
`pop_off`, so which lock is meant and how long the wait takes do not matter here:
`intrGet` and `pushOff` are the two parts of `push_off` alone as well as in
`acquire`, and `popOff` is `pop_off` alone as well as in `release`.  An interrupt
can come between the two parts of `push_off`.  `pop_off` runs with interrupts off up
to its last instruction.

Kernel threads call these functions properly nested: a thread, or an interrupt
handler on its stack, calls `pop_off` only after a `push_off` of its own.  Code that
turns interrupts on or off by itself is outside of every `push_off`: the system call
path of `usertrap`, `prepare_return`, the return to user space and the trap from
there, and the loop of `scheduler`.
-/

namespace Xv6
namespace Spinlock

open Lib
open Function (update)

/-- `struct cpu`, with the interrupt-enable bit of `sstatus`.  `proc` is `none` while the CPU is in
its scheduler thread. -/
structure Cpu (nproc : Nat) where
  noff : Nat
  intena : Bool
  sie : Bool
  proc : Option (Fin nproc)

inductive Panic where
  | popOff
  | popOffInterruptible
  | schedLocks
  | schedInterruptible
deriving DecidableEq, Repr

namespace Cpu

variable {nproc : Nat}

/-- `push_off` from `intr_off` on; `old` is what `intr_get` has returned. -/
def pushOff (c : Cpu nproc) (old : Bool) : Cpu nproc :=
  { c with
    sie := false
    intena := if c.noff = 0 then old else c.intena
    noff := c.noff + 1 }

def popOff (c : Cpu nproc) : Except Panic (Cpu nproc) :=
  if c.sie then
    .error .popOffInterruptible
  else if c.noff < 1 then
    .error .popOff
  else
    .ok
      { c with
        noff := c.noff - 1
        sie := if c.noff - 1 = 0 ∧ c.intena then true else c.sie }

def schedCheck (c : Cpu nproc) : Except Panic Unit :=
  if c.noff ≠ 1 then
    .error .schedLocks
  else if c.sie then
    .error .schedInterruptible
  else
    .ok ()

end Cpu

/-- Where a thread is: in the code that calls `push_off`, or inside of it with the value of
`intr_get`. -/
inductive Pc where
  | run
  | off (old : Bool)
deriving DecidableEq, Repr

/-- An interrupted place: the program counter and the number of `push_off`s open there. -/
structure Trap where
  pc : Pc
  depth : Nat
deriving DecidableEq, Repr

/-- A kernel thread.  `opened` are its `push_off`s without a `pop_off`, the last one first, with the
enable bit that each of them has found.  The first `release` of a new thread has no
`push_off` of its own: it is for the lock that the scheduler has taken. -/
structure Thread where
  pc : Pc
  opened : List (Option Bool)
  traps : List Trap
deriving DecidableEq, Repr

def Thread.new : Thread :=
  {
    pc := .run
    opened := [none]
    traps := []
  }

def Thread.depth (t : Thread) : Nat :=
  match t.traps with
  | [] => 0
  | trap :: _ => trap.depth

/-- A process is on a CPU, will start in `forkret`, or is in `sched` with the value of its local
variable `intena`. -/
inductive Place where
  | running
  | forkret
  | sched (intena : Bool)
deriving DecidableEq, Repr

structure Sys (ncpu nproc : Nat) where
  cpus : Fin ncpu -> Cpu nproc
  schedulers : Fin ncpu -> Thread
  procs : Fin nproc -> Thread
  places : Fin nproc -> Place
  panic : Option Panic

inductive Action (ncpu nproc : Nat) where
  -- the two parts of `push_off`
  | intrGet (c : Fin ncpu)
  | pushOff (c : Fin ncpu)
  | popOff (c : Fin ncpu)
  -- `intr_on` or `intr_off`
  | setIntr (c : Fin ncpu) (on : Bool)
  -- `kernelvec`, and its return
  | interrupt (c : Fin ncpu)
  | sret (c : Fin ncpu)
  | sched (c : Fin ncpu)
  -- `swtch` in `scheduler`
  | swtch (c : Fin ncpu) (p : Fin nproc)
  | allocproc (p : Fin nproc)

namespace Sys

variable {ncpu nproc : Nat}

def thread (s : Sys ncpu nproc) (c : Fin ncpu) : Thread :=
  match (s.cpus c).proc with
  | none => s.schedulers c
  | some p => s.procs p

def setCpu (s : Sys ncpu nproc) (c : Fin ncpu) (cpu : Cpu nproc) : Sys ncpu nproc :=
  { s with cpus := update s.cpus c cpu }

def setThread (s : Sys ncpu nproc) (c : Fin ncpu) (t : Thread) : Sys ncpu nproc :=
  match (s.cpus c).proc with
  | none => { s with schedulers := update s.schedulers c t }
  | some p => { s with procs := update s.procs p t }

def step (s : Sys ncpu nproc) : Action ncpu nproc -> Option (Sys ncpu nproc)
  | .intrGet c =>
    if (s.thread c).pc = .run then
      some (s.setThread c { s.thread c with pc := .off (s.cpus c).sie })
    else
      none
  | .pushOff c =>
    match (s.thread c).pc with
    | .run => none
    | .off old =>
      some
        ((s.setThread c
          { s.thread c with
            pc := .run
            opened := some (s.cpus c).sie :: (s.thread c).opened }).setCpu c
          ((s.cpus c).pushOff old))
  | .popOff c =>
    if (s.thread c).pc = .run ∧ (s.thread c).depth < (s.thread c).opened.length then
      match (s.cpus c).popOff with
      | .error e => some { s with panic := some e }
      | .ok cpu =>
        some ((s.setThread c
          { s.thread c with opened := (s.thread c).opened.tail }).setCpu c cpu)
    else
      none
  | .setIntr c on =>
    if (s.thread c).pc = .run ∧ (s.thread c).opened = [] ∧ (s.thread c).traps = [] then
      some (s.setCpu c { s.cpus c with sie := on })
    else
      none
  | .interrupt c =>
    if (s.cpus c).sie then
      some
        ((s.setThread c
          { s.thread c with
            pc := .run
            traps :=
              {
                pc := (s.thread c).pc
                depth := (s.thread c).opened.length
              } :: (s.thread c).traps }).setCpu c
          { s.cpus c with sie := false })
    else
      none
  | .sret c =>
    match (s.thread c).traps with
    | [] => none
    | trap :: traps =>
      if (s.thread c).pc = .run ∧ (s.thread c).opened.length = trap.depth then
        some
          ((s.setThread c
            { s.thread c with
              pc := trap.pc
              traps := traps }).setCpu c
            { s.cpus c with sie := true })
      else
        none
  | .sched c =>
    match (s.cpus c).proc with
    | none => none
    | some p =>
      if (s.procs p).pc = .run then
        match (s.cpus c).schedCheck with
        | .error e => some { s with panic := some e }
        | .ok () =>
          some
            { s.setCpu c { s.cpus c with proc := none } with
              places := update s.places p (.sched (s.cpus c).intena) }
      else
        none
  | .swtch c p =>
    -- the scheduler has acquired `p->lock` and is not in an interrupt handler
    if (s.cpus c).proc = none ∧ (s.schedulers c).pc = .run ∧
        (s.schedulers c).opened.length = 1 ∧ (s.schedulers c).traps = [] then
      match s.places p with
      | .running => none
      | .forkret =>
        some
          { s.setCpu c { s.cpus c with proc := some p } with
            places := update s.places p .running }
      | .sched intena =>
        some
          { s.setCpu c { s.cpus c with proc := some p, intena := intena } with
            places := update s.places p .running }
    else
      none
  | .allocproc p =>
    if s.places p ≠ .running then
      some
        { s with
          procs := update s.procs p .new
          places := update s.places p .forkret }
    else
      none

structure Booted (s : Sys ncpu nproc) : Prop where
  proc : forall c, (s.cpus c).proc = none
  noff : forall c, (s.cpus c).noff = 0
  schedulers : forall c, s.schedulers c = { pc := .run, opened := [], traps := [] }
  procs : forall p, s.procs p = .new
  places : forall p, s.places p = .forkret
  panic : s.panic = none

def booted : Sys 2 1 :=
  {
    cpus := fun _ =>
      {
        noff := 0
        intena := false
        sie := false
        proc := none
      }
    schedulers := fun _ =>
      {
        pc := .run
        opened := []
        traps := []
      }
    procs := fun _ => .new
    places := fun _ => .forkret
    panic := none
  }

def next (s : Sys ncpu nproc) (a : Action ncpu nproc) : Option (Sys ncpu nproc) :=
  if s.panic = none then s.step a else none

theorem next_step {s s' : Sys ncpu nproc} {a : Action ncpu nproc} (h : s.next a = some s') :
    s.panic = none ∧ s.step a = some s' := by
  unfold next at h
  split at h
  · next hpanic => exact ⟨hpanic, h⟩
  · cases h

end Sys

def system (ncpu nproc : Nat) : System (Sys ncpu nproc) (Action ncpu nproc) where
  init := Sys.Booted
  step := fun s a s' => s.panic = none ∧ s.step a = some s'

end Spinlock
end Xv6
