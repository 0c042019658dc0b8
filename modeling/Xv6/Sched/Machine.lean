import Xv6.Lib.Transition
import Xv6.Param
import Mathlib.Logic.Function.Basic
import Mathlib.Data.Int.Init
import Mathlib.Data.Fintype.Defs
import Mathlib.Algebra.Order.Ring.Nat

/-!
# Processes, locks and CPUs

The process table of `proc.c` with the functions that change it, run by any
number of CPUs.  A CPU executes either its scheduler or the kernel thread of a
process, and a step is one action of one CPU.

`p->lock` is taken and given back in separate steps wherever it is held across a
switch of threads: in `sleep`, `yield`, the tail of `kexit`, `forkret` and the
scheduler.  Where code takes `p->lock` of some slot, looks at or changes the
entry and gives the lock back (`wakeup`, `kkill`, `killed`, `allocproc`, the
visit of a child in `kwait`), this is one step that needs the lock to be free.
`wait_lock` and the locks of other parts of the kernel are taken and given back
in steps of their own.
-/

namespace Xv6
namespace Sched

open Lib Function

/-!
## The process table
-/

inductive ProcState where
  | unused
  | used
  | sleeping
  | runnable
  | running
  | zombie
deriving DecidableEq, Repr

/-- Sleep channels: 0, the address of a `struct proc`, any other address. -/
inductive Chan (nproc : Nat) where
  | null
  | proc (p : Fin nproc)
  | addr (a : Nat)
deriving DecidableEq, Repr

/-- Of the page table and the trapframe only their presence matters here, and of an open
file or the current directory too.  `birth` numbers the calls of `allocpid`. -/
structure Proc (nproc : Nat) where
  state : ProcState
  chan : Chan nproc
  killed : Bool
  xstate : Int
  pid : Int
  parent : Option (Fin nproc)
  sz : Nat
  pagetable : Bool
  trapframe : Bool
  ofile : Fin NOFILE -> Bool
  cwd : Bool
  birth : Nat

def freeproc {nproc : Nat} (x : Proc nproc) : Proc nproc :=
  { x with
    trapframe := false
    pagetable := false
    sz := 0
    pid := 0
    parent := none
    chan := .null
    killed := false
    xstate := 0
    state := .unused }

def wakeup {nproc : Nat} (chan : Chan nproc) (x : Proc nproc) : Proc nproc :=
  if x.state = .sleeping ∧ x.chan = chan then { x with state := .runnable } else x

/-- The part of `kkill` under `p->lock`, at the slot it looks for. -/
def kkill {nproc : Nat} (x : Proc nproc) : Proc nproc :=
  { x with
    killed := true
    state := if x.state = .sleeping then .runnable else x.state }

inductive Alloc where
  | ok
  | noTrapframe
  | noPagetable
  | noCopy
deriving DecidableEq, Repr

/-- `allocproc` at an unused slot and `kfork` up to `release(&np->lock)`. -/
def allocproc {nproc : Nat} (parent x : Proc nproc) (pid : Int) (birth : Nat) :
    Alloc -> Proc nproc
  | .noTrapframe =>
    freeproc { x with pid := pid, birth := birth, state := .used }
  | .noPagetable =>
    freeproc { x with pid := pid, birth := birth, state := .used, trapframe := true }
  | .noCopy =>
    freeproc { x with
      pid := pid
      birth := birth
      state := .used
      trapframe := true
      pagetable := true }
  | .ok =>
    { x with
      pid := pid
      birth := birth
      state := .used
      trapframe := true
      pagetable := true
      sz := parent.sz
      ofile := fun fd => parent.ofile fd || x.ofile fd
      cwd := parent.cwd }

/-!
## Program points

`client` is any code outside the functions of `proc.c` below: user code, other
system calls, drivers.  It may take and give back locks, sleep, wake up others
and be preempted.  While a process is in `kexit` it runs such code too, to close
its files.
-/

/-- `wait_lock`, and the other spinlocks of the kernel that may be passed to `sleep`. -/
inductive Lk where
  | wait
  | other (n : Nat)
deriving DecidableEq, Repr

inductive Mode where
  | normal
  -- in the loop of `kexit` that closes the files, at `fd`
  | exiting (status : Int) (fd : Nat)
deriving DecidableEq, Repr

inductive WakeKont where
  | client (m : Mode) (held : List Nat)
  -- `reparent` goes on at slot `pp`
  | reparent (status : Int) (pp : Nat)
  | exitOwn (status : Int)
deriving DecidableEq, Repr

inductive SleepKont where
  | client (m : Mode) (n : Nat)
  | wait (addr : Nat)
deriving DecidableEq, Repr

inductive Resume (nproc : Nat) where
  | sleep (chan : Chan nproc) (k : SleepKont)
  | yield (m : Mode)
  | forkret
  | dead
deriving DecidableEq, Repr

inductive Pc (nproc : Nat) where
  | client (m : Mode) (held : List Nat)
  -- `wakeup`, about to visit slot `j`
  | wake (chan : Chan nproc) (j : Nat) (k : WakeKont)
  -- `sleep`: before `acquire(&p->lock)`, `release(lk)` and the change of state
  | sleepAcquire (chan : Chan nproc) (k : SleepKont)
  | sleepRelease (chan : Chan nproc) (k : SleepKont)
  | sleepSet (chan : Chan nproc) (k : SleepKont)
  -- at the `swtch` of `sched`, or switched out there
  | swtch (r : Resume nproc)
  -- `sleep` after `sched`: before `p->chan = 0`, `release(&p->lock)` and `acquire(lk)`
  | sleepTidy (k : SleepKont)
  | sleepUnlock (k : SleepKont)
  | sleepRelock (k : SleepKont)
  | yieldAcquire (m : Mode)
  | yieldSet (m : Mode)
  -- the `release(&p->lock)` of `yield` and `forkret`
  | unlock (m : Mode)
  | kill (pid : Int) (j : Nat)
  -- `kfork`: the loop of `allocproc`, then the two critical sections that publish `np`
  | forkScan (j : Nat)
  | forkParent (np : Fin nproc) (pid : Int)
  | forkRun (np : Fin nproc) (pid : Int)
  -- `kexit`: its first line, `acquire(&wait_lock)`, `reparent`, and from the second `acquire` on
  | exit (status : Int)
  | exitLock (status : Int)
  | reparent (status : Int) (pp : Nat)
  | exitOwn (status : Int)
  | exitSet (status : Int)
  | exitUnlock
  | waitLock (addr : Nat)
  | waitScan (addr : Nat) (pp : Nat) (havekids : Bool)
  | waitRet (r : Int)
  -- a system call returns `r`
  | ret (r : Int)
deriving DecidableEq, Repr

namespace SleepKont

def lk : SleepKont -> Lk
  | .client _ n => .other n
  | .wait _ => .wait

def pc {nproc : Nat} : SleepKont -> Pc nproc
  | .client m n => .client m [n]
  | .wait addr => .waitScan addr 0 false

end SleepKont

def WakeKont.pc {nproc : Nat} : WakeKont -> Pc nproc
  | .client m held => .client m held
  | .reparent status pp => .reparent status pp
  | .exitOwn status => .exitOwn status

def Pc.resume {nproc : Nat} : Pc nproc -> Pc nproc
  | .swtch (.sleep _ k) => .sleepTidy k
  | .swtch (.yield m) => .unlock m
  | .swtch .forkret => .unlock .normal
  | pc => pc

/-- What a CPU executes: its scheduler, at one of the points of its loop, or a process. -/
inductive CpuPc (nproc : Nat) where
  | scan (j : Nat)
  -- `p` is locked and runnable: before `p->state = RUNNING`, `c->proc = p` and `swtch`
  | picked (p : Fin nproc)
  | chosen (p : Fin nproc)
  | switch (p : Fin nproc)
  | process (p : Fin nproc)
  -- `swtch` has returned: before `c->proc = 0` and `release(&p->lock)`
  | back (p : Fin nproc)
  | unlock (p : Fin nproc)
deriving DecidableEq, Repr

structure Cpu (nproc : Nat) where
  proc : Option (Fin nproc)
  point : CpuPc nproc

structure Exit where
  birth : Nat
  pid : Int
  status : Int
deriving DecidableEq, Repr

/-- A process freed by `kwait`: the caller, the entry as it was freed, what was returned, and
the status if it was copied out. -/
structure Reap (nproc : Nat) where
  caller : Fin nproc
  entry : Proc nproc
  returned : Int
  status : Option Int

structure Sys (nproc ncpu : Nat) where
  procs : Fin nproc -> Proc nproc
  stack : Fin nproc -> Pc nproc
  plock : Fin nproc -> Option (Fin ncpu)
  locks : Lk -> Option (Fin nproc)
  cpus : Fin ncpu -> Cpu nproc
  initproc : Fin nproc
  nextpid : Int
  births : Nat
  exits : List Exit
  reaps : List (Reap nproc)

/-!
## The code

`code` gives the effect of the next action of a process and the point that
follows.  A choice stands for what the rest of the kernel and the user program
decide.
-/

inductive Eff (nproc : Nat) where
  | nothing
  -- take and give back the lock of slot `q`, having only looked at the entry
  | probe (q : Fin nproc)
  | lockOwn
  | unlockOwn
  | acquire (l : Lk)
  | release (l : Lk)
  | wake (q : Fin nproc) (chan : Chan nproc)
  | kill (q : Fin nproc)
  -- the fields of `p` that are private to it
  | priv (sz : Nat) (ofile : Fin NOFILE -> Bool) (cwd : Bool)
  | setkilled
  | sleep (chan : Chan nproc)
  | giveUp
  | tidy
  | zombie (status : Int)
  | swtch
  | adopt (q : Fin nproc)
  | alloc (q : Fin nproc) (r : Alloc)
  | father (q : Fin nproc)
  | ready (q : Fin nproc)
  | reap (q : Fin nproc) (copied : Bool)

inductive Choice (nproc : Nat) where
  | go
  | acquire (n : Nat)
  | release (n : Nat)
  | wakeup (chan : Chan nproc)
  | sleep (chan : Chan nproc) (n : Nat)
  | yield
  -- open, close, dup, chdir, exec, sbrk
  | priv (sz : Nat) (ofile : Fin NOFILE -> Bool)
  -- `usertrap`: an unexpected trap, a test of `killed`
  | fault
  | check
  | kkill (pid : Int)
  | kfork
  | kwait (addr : Nat)
  | kexit (status : Int)
  | alloc (r : Alloc)
  | copyout (ok : Bool)

namespace Sys

variable {nproc ncpu : Nat}

def client (s : Sys nproc ncpu) (p : Fin nproc) (m : Mode) (held : List Nat) :
    Choice nproc -> Option (Eff nproc × Pc nproc)
  | .acquire n =>
    if n ∈ held then none else some (.acquire (.other n), .client m (n :: held))
  | .release n =>
    if n ∈ held then some (.release (.other n), .client m (held.filter (· ≠ n))) else none
  | .wakeup chan => some (.nothing, .wake chan 0 (.client m held))
  -- `sched` panics unless `lk` is the only lock held
  | .sleep chan n =>
    if held = [n] then some (.nothing, .sleepAcquire chan (.client m n)) else none
  | .yield => if held = [] then some (.nothing, .yieldAcquire m) else none
  | .priv sz ofile =>
    if m = .normal then some (.priv sz ofile (s.procs p).cwd, .client m held) else none
  | .fault =>
    if m = .normal ∧ held = [] then some (.setkilled, .client m held) else none
  | .check =>
    if m = .normal ∧ held = [] then
      some (.probe p, if (s.procs p).killed = true then .exit (-1) else .client m held)
    else
      none
  | .kkill pid => if m = .normal ∧ held = [] then some (.nothing, .kill pid 0) else none
  | .kfork => if m = .normal ∧ held = [] then some (.nothing, .forkScan 0) else none
  | .kwait addr => if m = .normal ∧ held = [] then some (.nothing, .waitLock addr) else none
  | .kexit status => if m = .normal ∧ held = [] then some (.nothing, .exit status) else none
  | .go =>
    match m with
    | .normal => none
    | .exiting status fd =>
      if held = [] then
        if h : fd < NOFILE then
          some (.priv (s.procs p).sz (update (s.procs p).ofile ⟨fd, h⟩ false)
            (s.procs p).cwd, .client (.exiting status (fd + 1)) held)
        else
          some (.priv (s.procs p).sz (s.procs p).ofile false, .exitLock status)
      else
        none
  | .alloc _ => none
  | .copyout _ => none

def wakeupLoop (p : Fin nproc) (chan : Chan nproc) (j : Nat) (k : WakeKont) :
    Eff nproc × Pc nproc :=
  if h : j < nproc then
    if j = p then (.nothing, .wake chan (j + 1) k)
    else (.wake ⟨j, h⟩ chan, .wake chan (j + 1) k)
  else
    (.nothing, k.pc)

def kkillLoop (s : Sys nproc ncpu) (pid : Int) (j : Nat) : Eff nproc × Pc nproc :=
  if h : j < nproc then
    if (s.procs ⟨j, h⟩).pid = pid then (.kill ⟨j, h⟩, .ret 0)
    else (.probe ⟨j, h⟩, .kill pid (j + 1))
  else
    (.nothing, .ret (-1))

def allocprocLoop (s : Sys nproc ncpu) (j : Nat) (ch : Choice nproc) :
    Option (Eff nproc × Pc nproc) :=
  if h : j < nproc then
    if (s.procs ⟨j, h⟩).state = .unused then
      match ch with
      | .alloc .ok => some (.alloc ⟨j, h⟩ .ok, .forkParent ⟨j, h⟩ s.nextpid)
      | .alloc r => some (.alloc ⟨j, h⟩ r, .ret (-1))
      | _ => none
    else
      some (.probe ⟨j, h⟩, .forkScan (j + 1))
  else
    some (.nothing, .ret (-1))

def reparentLoop (s : Sys nproc ncpu) (p : Fin nproc) (status : Int) (pp : Nat) :
    Eff nproc × Pc nproc :=
  if h : pp < nproc then
    if (s.procs ⟨pp, h⟩).parent = some p then
      (.adopt ⟨pp, h⟩, .wake (.proc s.initproc) 0 (.reparent status (pp + 1)))
    else
      (.nothing, .reparent status (pp + 1))
  else
    (.nothing, .wake (((s.procs p).parent.map Chan.proc).getD .null) 0 (.exitOwn status))

def kwaitLoop (s : Sys nproc ncpu) (p : Fin nproc) (addr pp : Nat) (havekids : Bool)
    (ch : Choice nproc) : Eff nproc × Pc nproc :=
  if h : pp < nproc then
    if (s.procs ⟨pp, h⟩).parent = some p then
      if (s.procs ⟨pp, h⟩).state = .zombie then
        match addr, ch with
        | 0, _ => (.reap ⟨pp, h⟩ false, .waitRet (s.procs ⟨pp, h⟩).pid)
        | _ + 1, .copyout false => (.probe ⟨pp, h⟩, .waitRet (-1))
        | _ + 1, _ => (.reap ⟨pp, h⟩ true, .waitRet (s.procs ⟨pp, h⟩).pid)
      else
        (.probe ⟨pp, h⟩, .waitScan addr (pp + 1) true)
    else
      (.nothing, .waitScan addr (pp + 1) havekids)
  else if havekids = false then
    (.nothing, .waitRet (-1))
  else
    (.probe p, if (s.procs p).killed = true then .waitRet (-1)
      else .sleepAcquire (.proc p) (.wait addr))

def code (s : Sys nproc ncpu) (p : Fin nproc) (ch : Choice nproc) :
    Pc nproc -> Option (Eff nproc × Pc nproc)
  | .client m held => s.client p m held ch
  | .wake chan j k => some (wakeupLoop p chan j k)
  | .sleepAcquire chan k => some (.lockOwn, .sleepRelease chan k)
  | .sleepRelease chan k => some (.release k.lk, .sleepSet chan k)
  | .sleepSet chan k => some (.sleep chan, .swtch (.sleep chan k))
  | .swtch r => some (.swtch, .swtch r)
  | .sleepTidy k => some (.tidy, .sleepUnlock k)
  | .sleepUnlock k => some (.unlockOwn, .sleepRelock k)
  | .sleepRelock k => some (.acquire k.lk, k.pc)
  | .yieldAcquire m => some (.lockOwn, .yieldSet m)
  | .yieldSet m => some (.giveUp, .swtch (.yield m))
  | .unlock m => some (.unlockOwn, .client m [])
  | .kill pid j => some (s.kkillLoop pid j)
  | .forkScan j => s.allocprocLoop j ch
  | .forkParent np pid => some (.father np, .forkRun np pid)
  | .forkRun np pid => some (.ready np, .ret pid)
  -- `panic("init exiting")`
  | .exit status =>
    if p = s.initproc then none else some (.nothing, .client (.exiting status 0) [])
  | .exitLock status => some (.acquire .wait, .reparent status 0)
  | .reparent status pp => some (s.reparentLoop p status pp)
  | .exitOwn status => some (.lockOwn, .exitSet status)
  | .exitSet status => some (.zombie status, .exitUnlock)
  | .exitUnlock => some (.release .wait, .swtch .dead)
  | .waitLock addr => some (.acquire .wait, .waitScan addr 0 false)
  | .waitScan addr pp havekids => some (s.kwaitLoop p addr pp havekids ch)
  | .waitRet r => some (.release .wait, .ret r)
  | .ret _ => some (.nothing, .client .normal [])

/-!
## Steps
-/

def setProc (s : Sys nproc ncpu) (q : Fin nproc) (x : Proc nproc) : Sys nproc ncpu :=
  { s with procs := update s.procs q x }

def goto (s : Sys nproc ncpu) (p : Fin nproc) (pc : Pc nproc) : Sys nproc ncpu :=
  { s with stack := update s.stack p pc }

def setPlock (s : Sys nproc ncpu) (q : Fin nproc) (o : Option (Fin ncpu)) : Sys nproc ncpu :=
  { s with plock := update s.plock q o }

def setLock (s : Sys nproc ncpu) (l : Lk) (o : Option (Fin nproc)) : Sys nproc ncpu :=
  { s with locks := update s.locks l o }

def setCpu (s : Sys nproc ncpu) (c : Fin ncpu) (x : Cpu nproc) : Sys nproc ncpu :=
  { s with cpus := update s.cpus c x }

def setPoint (s : Sys nproc ncpu) (c : Fin ncpu) (pt : CpuPc nproc) : Sys nproc ncpu :=
  s.setCpu c { s.cpus c with point := pt }

def Enabled (s : Sys nproc ncpu) (p : Fin nproc) : Eff nproc -> Prop
  | .probe q => s.plock q = none
  | .lockOwn => s.plock p = none
  | .acquire l => s.locks l = none
  | .wake q _ => s.plock q = none
  | .kill q => s.plock q = none
  | .setkilled => s.plock p = none
  | .alloc q _ => s.plock q = none
  | .father _ => s.locks .wait = none
  | .ready q => s.plock q = none
  | .reap q _ => s.plock q = none
  | _ => True

instance (s : Sys nproc ncpu) (p : Fin nproc) (e : Eff nproc) : Decidable (s.Enabled p e) := by
  cases e <;> unfold Enabled <;> infer_instance

def wrap32 (i : Int) : Int :=
  i.bmod (2 ^ 32)

def apply (s : Sys nproc ncpu) (c : Fin ncpu) (p : Fin nproc) : Eff nproc -> Sys nproc ncpu
  | .nothing => s
  | .probe _ => s
  | .lockOwn => s.setPlock p (some c)
  | .unlockOwn => s.setPlock p none
  | .acquire l => s.setLock l (some p)
  | .release l => s.setLock l none
  | .wake q chan => s.setProc q (wakeup chan (s.procs q))
  | .kill q => s.setProc q (kkill (s.procs q))
  | .priv sz ofile cwd =>
    s.setProc p
      { s.procs p with
        sz := sz
        ofile := ofile
        cwd := cwd }
  | .setkilled => s.setProc p { s.procs p with killed := true }
  | .sleep chan =>
    s.setProc p
      { s.procs p with
        chan := chan
        state := .sleeping }
  | .giveUp => s.setProc p { s.procs p with state := .runnable }
  | .tidy => s.setProc p { s.procs p with chan := .null }
  | .zombie status =>
    { s.setProc p
        { s.procs p with
          xstate := status
          state := .zombie }
      with
      exits := s.exits ++
        [{ birth := (s.procs p).birth, pid := (s.procs p).pid, status := status }] }
  | .swtch => s.setPoint c (.back p)
  | .adopt q => s.setProc q { s.procs q with parent := some s.initproc }
  | .alloc q r =>
    { s.setProc q (allocproc (s.procs p) (s.procs q) s.nextpid s.births r) with
      stack := if r = .ok then update s.stack q (.swtch .forkret) else s.stack
      nextpid := wrap32 (s.nextpid + 1)
      births := s.births + 1 }
  | .father q => s.setProc q { s.procs q with parent := some p }
  | .ready q => s.setProc q { s.procs q with state := .runnable }
  | .reap q copied =>
    { s.setProc q (freeproc (s.procs q)) with
      reaps := s.reaps ++
        [{  caller := p
            entry := s.procs q
            returned := (s.procs q).pid
            status := if copied then some (s.procs q).xstate else none }] }

def step (s : Sys nproc ncpu) (c : Fin ncpu) (ch : Choice nproc) : Option (Sys nproc ncpu) :=
  match (s.cpus c).point with
  | .scan j =>
    if h : j < nproc then
      if s.plock ⟨j, h⟩ = none then
        if (s.procs ⟨j, h⟩).state = .runnable then
          some ((s.setPlock ⟨j, h⟩ (some c)).setPoint c (.picked ⟨j, h⟩))
        else
          some (s.setPoint c (.scan (j + 1)))
      else
        none
    else
      some (s.setPoint c (.scan 0))
  | .picked p =>
    some ((s.setProc p { s.procs p with state := .running }).setPoint c (.chosen p))
  | .chosen p => some (s.setCpu c { proc := some p, point := .switch p })
  | .switch p => some ((s.goto p (s.stack p).resume).setPoint c (.process p))
  | .process p =>
    (s.code p ch (s.stack p)).bind fun r =>
      if s.Enabled p r.1 then some ((s.apply c p r.1).goto p r.2) else none
  | .back p => some (s.setCpu c { proc := none, point := .unlock p })
  | .unlock p => some ((s.setPlock p none).setPoint c (.scan (p + 1)))

/-!
## Boot

`procinit` and `userinit` have run and every CPU enters its scheduler.
-/

structure Bare (x : Proc nproc) : Prop where
  pid : x.pid = 0
  xstate : x.xstate = 0
  chan : x.chan = .null
  sz : x.sz = 0
  pagetable : x.pagetable = false
  trapframe : x.trapframe = false
  parent : x.parent = none
  ofile : forall fd, x.ofile fd = false
  cwd : x.cwd = false

structure Clean (x : Proc nproc) : Prop extends Bare x where
  killed : x.killed = false

structure Booted (s : Sys nproc ncpu) : Prop where
  first : (s.initproc : Nat) = 0
  init_state : (s.procs s.initproc).state = .runnable
  init_pid : (s.procs s.initproc).pid = 1
  init_birth : (s.procs s.initproc).birth = 0
  init_killed : (s.procs s.initproc).killed = false
  init_parent : (s.procs s.initproc).parent = none
  init_stack : s.stack s.initproc = .swtch .forkret
  unused : forall q, q ≠ s.initproc -> (s.procs q).state = .unused
  clean : forall q, q ≠ s.initproc -> Clean (s.procs q)
  stack : forall q, q ≠ s.initproc -> s.stack q = .swtch .dead
  plock : forall q, s.plock q = none
  locks : forall l, s.locks l = none
  cpus : forall c, s.cpus c = { proc := none, point := .scan 0 }
  nextpid : s.nextpid = 2
  births : s.births = 1
  exits : s.exits = []
  reaps : s.reaps = []

def boot (nproc ncpu : Nat) [NeZero nproc] : Sys nproc ncpu :=
  {
    procs := fun q =>
      {
        state := if q = 0 then .runnable else .unused
        chan := .null
        killed := false
        xstate := 0
        pid := if q = 0 then 1 else 0
        parent := none
        sz := 0
        pagetable := q = 0
        trapframe := q = 0
        ofile := fun _ => false
        cwd := q = 0
        birth := 0
      }
    stack := fun q => if q = 0 then .swtch .forkret else .swtch .dead
    plock := fun _ => none
    locks := fun _ => none
    cpus := fun _ => { proc := none, point := .scan 0 }
    initproc := 0
    nextpid := 2
    births := 1
    exits := []
    reaps := []
  }

theorem booted_boot (nproc ncpu : Nat) [NeZero nproc] : (boot nproc ncpu).Booted where
  first := by simp [boot]
  init_state := by simp [boot]
  init_pid := by simp [boot]
  init_birth := by simp [boot]
  init_killed := by simp [boot]
  init_parent := by simp [boot]
  init_stack := by simp [boot]
  unused := by
    intro q hq
    exact if_neg hq
  clean := by
    intro q hq
    have hne : q ≠ 0 := hq
    refine ⟨?_, rfl⟩
    constructor <;> simp [boot, hne]
  stack := by
    intro q hq
    exact if_neg hq
  plock := fun _ => rfl
  locks := fun _ => rfl
  cpus := fun _ => rfl
  nextpid := rfl
  births := rfl
  exits := rfl
  reaps := rfl

end Sys

instance : NeZero NPROC :=
  ⟨by decide⟩

def system (nproc ncpu : Nat) : System (Sys nproc ncpu) (Fin ncpu × Choice nproc) where
  init := Sys.Booted
  step := fun s l s' => s.step l.1 l.2 = some s'

end Sched
end Xv6
