import Xv6.Process.Lifecycle
import Xv6.Vm.Allocation
import Xv6.Vm.Lazy

/-!
# Processes with the bytes of their memory

The process table of `Kernel` together with the bytes of every page and the fields of
`struct proc` that hold no page.  The trapframe of a process is a page like the others.
-/

namespace Xv6
namespace Process

open Lib Vm Function

structure Context where
  ra : Nat
  sp : Nat
  s : Nat -> Nat

structure Info where
  pid : Nat
  chan : Nat
  killed : Nat
  xstate : Int
  name : Nat -> UInt8
  cwd : Option Nat
  context : Context

def Info.freed (sl : Info) : Info :=
  { sl with
    pid := 0
    name := update sl.name 0 0
    chan := 0
    killed := 0
    xstate := 0 }

/-- `inodeRef` counts the references to the inodes in memory, `outstanding` the transactions;
`forkret` is the address of the function. -/
structure Machine where
  kernel : Kernel
  data : Page -> Nat -> UInt8
  slot : Nat -> Info
  nextpid : Nat
  inodeRef : Nat -> Nat
  inodeLocked : Nat -> Bool
  outstanding : Nat
  kstack : Nat -> Nat
  forkret : Nat

def TRAPFRAMESIZE : Nat := 288

def A0 : Nat := 112

/-- The loop of `safestrcpy` for the byte `k`, with room for `n` bytes before the last one. -/
def safestrcpyLoop (t : Nat -> UInt8) : Nat -> (Nat -> UInt8) -> Nat -> (Nat -> UInt8)
  | 0, s, k => update s k 0
  | n + 1, s, k =>
    let s := update s k (t k)
    if t k ≠ 0 then
      safestrcpyLoop t n s (k + 1)
    else
      update s (k + 1) 0

def safestrcpy (s t : Nat -> UInt8) (n : Nat) : Nat -> UInt8 :=
  match n with
  | 0 => s
  | n + 1 => safestrcpyLoop t n s 0

namespace Machine

def ram (s : Machine) : Ram :=
  { kmem := s.kernel.kmem, data := s.data }

def setRam (s : Machine) (x : Ram) : Machine :=
  { s with
    kernel := { s.kernel with kmem := x.kmem }
    data := x.data }

def setProc (s : Machine) (i : Nat) (p : Proc) : Machine :=
  { s with kernel := s.kernel.setProc i p }

def setSlot (s : Machine) (i : Nat) (sl : Info) : Machine :=
  { s with slot := update s.slot i sl }

def freeproc (s : Machine) (i : Nat) : Except Panic Machine := do
  let p := s.kernel.proc i
  let x ← (if p.trapframe ≠ 0 then s.ram.kfree p.trapframe else pure s.ram)
  let x ← (if p.pagetable ≠ 0 then x.procFreepagetable p.pagetable p.sz else pure x)
  return ((s.setRam x).setProc i p.freed).setSlot i (s.slot i).freed

def allocpid (s : Machine) (i : Nat) : Machine :=
  { s with nextpid := s.nextpid + 1 }.setSlot i { s.slot i with pid := s.nextpid }

def newContext (s : Machine) (i : Nat) : Context :=
  { ra := s.forkret
    sp := s.kstack i + PGSIZE
    s := fun _ => 0 }

def allocproc (s : Machine) : Except Panic (Machine × Option Nat) :=
  match (List.range NPROC).find? (fun i => (s.kernel.proc i).state = .unused) with
  | none => return (s, none)
  | some i =>
    let s := s.allocpid i
    match s.ram.kalloc with
    | none => do
        let s ← (s.setProc i { s.kernel.proc i with state := .used, trapframe := 0 }).freeproc i
        return (s, none)
    | some (trapframe, x) => do
        let p := { s.kernel.proc i with state := .used, trapframe := trapframe }
        let (x, pagetable) ← x.procPagetable s.kernel.trampoline trapframe
        match pagetable with
        | none =>
          let s ← ((s.setRam x).setProc i { p with pagetable := 0 }).freeproc i
          return (s, none)
        | some pagetable =>
          let s := (s.setRam x).setProc i { p with pagetable := pagetable }
          return (s.setSlot i { s.slot i with context := s.newContext i }, some i)

/-- The saved registers of process `i`, with `a0` zero, are those of `j`. -/
def copyTrapframe (s : Machine) (i j : Nat) : Machine :=
  let np := (s.kernel.proc j).trapframe
  let x := s.ram.store np 0 TRAPFRAMESIZE (s.data (s.kernel.proc i).trapframe)
  s.setRam (x.store np A0 8 fun _ => 0)

def idup (s : Machine) (ip : Nat) : Machine :=
  { s with inodeRef := update s.inodeRef ip (s.inodeRef ip + 1) }

/-- The result is the slot of the child. -/
def kfork (s : Machine) (i : Nat) : Except Panic (Machine × Option Nat) := do
  let (s, np) ← s.allocproc
  match np with
  | none => return (s, none)
  | some j =>
    let (x, copied) ← s.ram.uvmcopy (s.kernel.proc i).pagetable (s.kernel.proc j).pagetable
      (s.kernel.proc i).sz
    let s := s.setRam x
    if !copied then
      let s ← s.freeproc j
      return (s, none)
    else
      let s := s.setProc j { s.kernel.proc j with sz := (s.kernel.proc i).sz }
      let s := s.copyTrapframe i j
      let k ← (List.range NOFILE).foldlM (dupFiles i j) s.kernel
      let s := { s with kernel := k }
      match (s.slot i).cwd with
      | none => throw .kerneltrap
      | some ip =>
        let s := (s.idup ip).setSlot j { s.slot j with
          cwd := some ip
          name := safestrcpy (s.slot j).name (s.slot i).name 16 }
        return (s.setProc j { s.kernel.proc j with parent := some i, state := .runnable },
          some j)

/-- The result is `true` when the function returns 0. -/
def growproc (s : Machine) (i : Nat) (n : Int) : Except Panic (Machine × Bool) :=
  let p := s.kernel.proc i
  if n > 0 then do
    let (x, sz) ← s.ram.uvmalloc p.pagetable p.sz (addInt p.sz n)
      { r := false, w := true, x := false, u := false }
    let s := s.setRam x
    if sz = 0 then
      return (s, false)
    else
      return (s.setProc i { p with sz := sz }, true)
  else if n < 0 then do
    let (x, sz) ← s.ram.uvmdealloc p.pagetable p.sz (addInt p.sz n)
    return ((s.setRam x).setProc i { p with sz := sz }, true)
  else
    return (s.setProc i p, true)

def sysSbrk (s : Machine) (i : Nat) (n : Int) (eager : Bool) : Except Panic (Machine × Bool) :=
  let addr := (s.kernel.proc i).sz
  if eager = true ∨ n < 0 then
    s.growproc i n
  else if addInt addr n < addr then
    return (s, false)
  else
    return (s.setProc i { s.kernel.proc i with sz := addInt addr n }, true)

/-- The result is `true` when a process has been found; waking it is left out. -/
def kkill (s : Machine) (pid : Nat) : Machine × Bool :=
  match (List.range NPROC).find? (fun i => (s.slot i).pid = pid) with
  | none => (s, false)
  | some i => (s.setSlot i { s.slot i with killed := 1 }, true)

end Machine

/-!
## The functions on `Kernel`
-/

section Erase

variable {α : Type}

def forget (res : Except Panic (Machine × α)) : Except Panic (Kernel × α) :=
  res.map fun (s, a) => (s.kernel, a)

theorem freeproc_forget (s : Machine) (i : Nat) :
    (s.freeproc i).map Machine.kernel = freeproc s.kernel i := by
  refine bind_sim (g := Ram.kmem) ?_ fun x => bind_sim (g := Ram.kmem) ?_ fun _ => rfl
  · split
    · exact kfree_kmem s.ram _
    · rfl
  · split
    · exact procFreepagetable_kmem x _ _
    · rfl

theorem allocproc_forget (s : Machine) : forget s.allocproc = allocproc s.kernel := by
  unfold Machine.allocproc allocproc
  cases (List.range NPROC).find? (fun i => decide ((s.kernel.proc i).state = .unused)) with
  | none => rfl
  | some i =>
    dsimp only
    generalize hs1 : s.allocpid i = s1
    have hkernel : s1.kernel = s.kernel := by
      rw [← hs1]
      rfl
    rw [← hkernel, show s1.kernel.kmem = s1.ram.kmem from rfl, ← kalloc_kmem]
    cases s1.ram.kalloc with
    | none =>
      exact bind_sim (freeproc_forget (s1.setProc i _) i) fun _ => rfl
    | some taken =>
      rcases taken with ⟨trapframe, x⟩
      refine bind_sim (procPagetable_kmem x s1.kernel.trampoline trapframe) ?_
      rintro ⟨y, pagetable⟩
      cases pagetable with
      | none => exact bind_sim (freeproc_forget ((s1.setRam y).setProc i _) i) fun _ => rfl
      | some pagetable => rfl

theorem growproc_forget (s : Machine) (i : Nat) (n : Int) :
    forget (s.growproc i n) = growproc s.kernel i n := by
  unfold Machine.growproc growproc
  dsimp only
  split
  · refine bind_sim (uvmalloc_kmem s.ram _ _ _ _) ?_
    rintro ⟨x, sz⟩
    dsimp only
    split
    · rfl
    · rfl
  split
  · exact bind_sim (uvmdealloc_kmem s.ram _ _ _) fun _ => rfl
  · rfl

theorem sysSbrk_forget (s : Machine) (i : Nat) (n : Int) (eager : Bool) :
    forget (s.sysSbrk i n eager) = sysSbrk s.kernel i n eager := by
  unfold Machine.sysSbrk sysSbrk
  dsimp only
  split
  · exact growproc_forget s i n
  split
  · rfl
  · rfl

end Erase

end Process
end Xv6
