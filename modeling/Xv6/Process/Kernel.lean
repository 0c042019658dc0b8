import Xv6.Process.Exec

/-!
# Processes, files and pipes

The process table of `proc.c` with the part of `file.c`, `pipe.c` and `sysfile.c` that
takes and returns pages.  A pointer to a page is its page number, and 0 is the null
pointer.  `RUNNABLE`, `RUNNING` and `SLEEPING` are one state, since only the scheduler
tells them apart.
-/

namespace Xv6
namespace Process

open Lib Vm Function

inductive ProcState where
  | unused
  | used
  | runnable
  | zombie
deriving DecidableEq, Repr

/-- `argv` holds the argument buffers of a process inside `sys_exec`. -/
structure Proc where
  state : ProcState
  parent : Option Nat
  trapframe : Page
  pagetable : Page
  sz : Nat
  ofile : Nat -> Option Nat
  argv : List Page

inductive FdType where
  | none
  | pipe
  | inode
  | device
deriving DecidableEq, Repr

structure File where
  type : FdType
  ref : Nat
  writable : Bool
  pipe : Page

structure Pipe where
  readopen : Bool
  writeopen : Bool

structure Kernel where
  kmem : Kmem
  trampoline : Page
  proc : Nat -> Proc
  initproc : Nat
  first : Bool
  file : Nat -> File
  pipe : Page -> Pipe

namespace Kernel

def setProc (s : Kernel) (i : Nat) (p : Proc) : Kernel :=
  { s with proc := update s.proc i p }

def setFile (s : Kernel) (f : Nat) (x : File) : Kernel :=
  { s with file := update s.file f x }

def myproc (s : Kernel) (i : Nat) : MyProc :=
  { pagetable := (s.proc i).pagetable, sz := (s.proc i).sz }

end Kernel

/-!
## `file.c` and `pipe.c`
-/

def filealloc (s : Kernel) : Kernel × Option Nat :=
  match (List.range NFILE).find? (fun f => (s.file f).ref = 0) with
  | none => (s, none)
  | some f => (s.setFile f { s.file f with ref := 1 }, some f)

def filedup (s : Kernel) (f : Nat) : Except Panic Kernel :=
  if (s.file f).ref < 1 then
    .error .filedup
  else
    .ok (s.setFile f { s.file f with ref := (s.file f).ref + 1 })

def pipeclose (s : Kernel) (pi : Page) (writable : Bool) : Except Panic Kernel :=
  let x : Pipe :=
    if writable then { s.pipe pi with writeopen := false }
    else { s.pipe pi with readopen := false }
  let s := { s with pipe := update s.pipe pi x }
  if !x.readopen && !x.writeopen then do
    let m ← kfree s.kmem pi
    return { s with kmem := m }
  else
    return s

/-- `fileclose`; releasing the inode of an `FD_INODE` or `FD_DEVICE` takes no page. -/
def fileclose (s : Kernel) (f : Nat) : Except Panic Kernel :=
  let ff := s.file f
  if ff.ref < 1 then
    .error .fileclose
  else if ff.ref - 1 > 0 then
    return s.setFile f { ff with ref := ff.ref - 1 }
  else
    let s := s.setFile f { ff with ref := 0, type := .none }
    if ff.type = .pipe then
      pipeclose s ff.pipe ff.writable
    else
      return s

def closeEnds (s : Kernel) (f0 f1 : Option Nat) : Except Panic Kernel := do
  let s ← (match f0 with
    | none => pure s
    | some f => fileclose s f)
  match f1 with
  | none => return s
  | some f => fileclose s f

def pipealloc (s : Kernel) : Except Panic (Kernel × Option (Nat × Nat)) :=
  match filealloc s with
  | (s, none) => return (s, none)
  | (s, some f0) =>
    match filealloc s with
    | (s, none) => do
        let s ← closeEnds s (some f0) none
        return (s, none)
    | (s, some f1) =>
      match kalloc s.kmem with
      | none => do
          let s ← closeEnds s (some f0) (some f1)
          return (s, none)
      | some (pi, m) =>
        let s := { s with
          kmem := m
          pipe := update s.pipe pi { readopen := true, writeopen := true } }
        let s := s.setFile f0 { s.file f0 with type := .pipe, writable := false, pipe := pi }
        let s := s.setFile f1 { s.file f1 with type := .pipe, writable := true, pipe := pi }
        return (s, some (f0, f1))

/-!
## `sysfile.c`
-/

def setFd (s : Kernel) (i fd : Nat) (f : Option Nat) : Kernel :=
  s.setProc i { s.proc i with ofile := update (s.proc i).ofile fd f }

def fdalloc (s : Kernel) (i f : Nat) : Kernel × Option Nat :=
  match (List.range NOFILE).find? (fun fd => (s.proc i).ofile fd = none) with
  | none => (s, none)
  | some fd => (setFd s i fd (some f), some fd)

def sysDup (s : Kernel) (i fd : Nat) : Except Panic Kernel :=
  if fd >= NOFILE then
    return s
  else
    match (s.proc i).ofile fd with
    | none => return s
    | some f =>
      match fdalloc s i f with
      | (s, none) => return s
      | (s, some _) => filedup s f

def sysClose (s : Kernel) (i fd : Nat) : Except Panic Kernel :=
  if fd >= NOFILE then
    return s
  else
    match (s.proc i).ofile fd with
    | none => return s
    | some f => fileclose (setFd s i fd none) f

def sysOpen (s : Kernel) (i : Nat) (device writable : Bool) : Except Panic Kernel :=
  match filealloc s with
  | (s, none) => return s
  | (s, some f) =>
    match fdalloc s i f with
    | (s, none) => fileclose s f
    | (s, some _) =>
      return s.setFile f { s.file f with
        type := if device then .device else .inode
        writable := writable }

def sysPipe (s : Kernel) (i addr : Nat) : Except Panic Kernel := do
  let (s, res) ← pipealloc s
  match res with
  | none => return s
  | some (rf, wf) =>
    match fdalloc s i rf with
    | (s, none) =>
      let s ← fileclose s rf
      fileclose s wf
    | (s, some fd0) =>
      match fdalloc s i wf with
      | (s, none) =>
        let s ← fileclose (setFd s i fd0 none) rf
        fileclose s wf
      | (s, some fd1) =>
        let (m, done) ← copyout s.kmem (s.myproc i) (s.proc i).pagetable addr 4
        let (m, done) ← (
          if done then
            copyout m (s.myproc i) (s.proc i).pagetable ((addr + 4) % 2 ^ 64) 4
          else
            pure (m, false))
        let s := { s with kmem := m }
        if done then
          return s
        else
          let s ← fileclose (setFd (setFd s i fd0 none) i fd1 none) rf
          fileclose s wf

def freeArgv (m : Kmem) (argv : List Page) : Except Panic Kmem :=
  argv.foldlM kfree m

def sysExecBad (s : Kernel) (i : Nat) : Except Panic Kernel := do
  let m ← freeArgv s.kmem (s.proc i).argv
  return { s with kmem := m }.setProc i { s.proc i with argv := [] }

def sysExecArg (s : Kernel) (i : Nat) : Except Panic Kernel :=
  if (s.proc i).argv.length >= MAXARG then
    sysExecBad s i
  else
    match kalloc s.kmem with
    | none => sysExecBad s i
    | some (pg, m) =>
      return { s with kmem := m }.setProc i { s.proc i with argv := (s.proc i).argv ++ [pg] }

def sysExec (s : Kernel) (i : Nat) (file : Option Readi) (args : List Nat) :
    Except Panic (Kernel × Bool) := do
  let p := s.proc i
  let (m, res) ← kexec s.kmem s.trampoline p.trapframe (s.myproc i) file args
  let m ← freeArgv m p.argv
  let p := { p with argv := [] }
  match res with
  | none => return ({ s with kmem := m }.setProc i p, false)
  | some np =>
    return ({ s with kmem := m }.setProc i { p with
      pagetable := np.pagetable
      sz := np.sz }, true)

/-!
## `proc.c`
-/

def freeproc (s : Kernel) (i : Nat) : Except Panic Kernel := do
  let p := s.proc i
  let m ← (if p.trapframe ≠ 0 then kfree s.kmem p.trapframe else pure s.kmem)
  let m ← (if p.pagetable ≠ 0 then procFreepagetable m p.pagetable p.sz else pure m)
  return { s with kmem := m }.setProc i { p with
    state := .unused
    parent := none
    trapframe := 0
    pagetable := 0
    sz := 0 }

def allocproc (s : Kernel) : Except Panic (Kernel × Option Nat) :=
  match (List.range NPROC).find? (fun i => (s.proc i).state = .unused) with
  | none => return (s, none)
  | some i =>
    match kalloc s.kmem with
    | none => do
        let s ← freeproc (s.setProc i { s.proc i with state := .used, trapframe := 0 }) i
        return (s, none)
    | some (trapframe, m) => do
        let p := { s.proc i with state := .used, trapframe := trapframe }
        let (m, pagetable) ← procPagetable m s.trampoline trapframe
        match pagetable with
        | none =>
          let s ← freeproc ({ s with kmem := m }.setProc i { p with pagetable := 0 }) i
          return (s, none)
        | some pagetable =>
          return ({ s with kmem := m }.setProc i { p with pagetable := pagetable }, some i)

/-- `kfork` up to `np->sz = p->sz`.  The result is the new process. -/
def kforkMemory (s : Kernel) (i : Nat) : Except Panic (Kernel × Option Nat) := do
  let (s, np) ← allocproc s
  match np with
  | none => return (s, none)
  | some j =>
    let (m, copied) ← uvmcopy s.kmem (s.proc i).pagetable (s.proc j).pagetable (s.proc i).sz
    let s := { s with kmem := m }
    if !copied then
      let s ← freeproc s j
      return (s, none)
    else
      return (s.setProc j { s.proc j with sz := (s.proc i).sz }, some j)

def dupFiles (i j : Nat) (s : Kernel) (fd : Nat) : Except Panic Kernel :=
  match (s.proc i).ofile fd with
  | none => return s
  | some f => do
      let s ← filedup s f
      return setFd s j fd (some f)

def kfork (s : Kernel) (i : Nat) : Except Panic (Kernel × Option Nat) := do
  let (s, np) ← kforkMemory s i
  match np with
  | none => return (s, none)
  | some j =>
    let s ← (List.range NOFILE).foldlM (dupFiles i j) s
    return (s.setProc j { s.proc j with parent := some i, state := .runnable }, some j)

def reparent (s : Kernel) (i : Nat) : Kernel :=
  { s with proc := fun j =>
      if (s.proc j).parent = some i then { s.proc j with parent := some s.initproc }
      else s.proc j }

def closeFd (i : Nat) (s : Kernel) (fd : Nat) : Except Panic Kernel :=
  match (s.proc i).ofile fd with
  | none => return s
  | some f => do
      let s ← fileclose s f
      return setFd s i fd none

def kexit (s : Kernel) (i : Nat) : Except Panic Kernel :=
  if i = s.initproc then
    .error .initExiting
  else do
    let s ← (List.range NOFILE).foldlM (closeFd i) s
    let s := reparent s i
    return s.setProc i { s.proc i with state := .zombie }

/-- One scan of `kwait` over the process table.  The result is the child that was
reaped. -/
def kwait (s : Kernel) (i addr : Nat) : Except Panic (Kernel × Option Nat) :=
  match (List.range NPROC).find? (fun j =>
      (s.proc j).parent = some i ∧ (s.proc j).state = .zombie) with
  | none => return (s, none)
  | some j => do
      let (m, done) ← (
        if addr ≠ 0 then copyout s.kmem (s.myproc i) (s.proc i).pagetable addr 4
        else pure (s.kmem, true))
      let s := { s with kmem := m }
      if !done then
        return (s, none)
      else
        let s ← freeproc s j
        return (s, some j)

def addInt (a : Nat) (n : Int) : Nat :=
  if 0 <= n then (a + n.toNat) % 2 ^ 64 else sub64 a (-n).toNat

/-- The result is `true` when the function returns 0. -/
def growproc (s : Kernel) (i : Nat) (n : Int) : Except Panic (Kernel × Bool) :=
  let p := s.proc i
  if n > 0 then do
    let (m, sz) ← uvmalloc s.kmem p.pagetable p.sz (addInt p.sz n)
      { r := false, w := true, x := false, u := false }
    let s := { s with kmem := m }
    if sz = 0 then
      return (s, false)
    else
      return (s.setProc i { p with sz := sz }, true)
  else if n < 0 then do
    let (m, sz) ← uvmdealloc s.kmem p.pagetable p.sz (addInt p.sz n)
    return ({ s with kmem := m }.setProc i { p with sz := sz }, true)
  else
    return (s.setProc i p, true)

def sysSbrk (s : Kernel) (i : Nat) (n : Int) (eager : Bool) : Except Panic (Kernel × Bool) :=
  let addr := (s.proc i).sz
  if eager = true ∨ n < 0 then
    growproc s i n
  else if addInt addr n < addr then
    return (s, false)
  else
    return (s.setProc i { s.proc i with sz := addInt addr n }, true)

def usertrapFault (s : Kernel) (i va : Nat) : Except Panic Kernel := do
  let (m, res) ← vmfault s.kmem (s.myproc i) (s.proc i).pagetable va
  let s := { s with kmem := m }
  match res with
  | some _ => return s
  | none => kexit s i

def forkret (s : Kernel) (i : Nat) (file : Option Readi) : Except Panic Kernel := do
  let (s, done) ← sysExec { s with first := false } i file [5]
  if done then
    return s
  else
    throw .exec

def userinit (s : Kernel) : Except Panic Kernel := do
  let (s, res) ← allocproc s
  match res with
  | none => throw .kerneltrap
  | some i => return { s with initproc := i }.setProc i { s.proc i with state := .runnable }

end Process
end Xv6
