import Xv6.Param
import Xv6.Lib.LittleEndian
import Xv6.Vm.AddressSpace

/-!
# `exec`

`kexec` of `exec.c` on the memory of one process.  The file is given by what
`readi` delivers of it, the argument strings by their lengths.  The registers in
the trapframe and the contents of user pages are not recorded.
-/

namespace Xv6
namespace Process

open Lib Vm

/-- `readi` of the executable into kernel memory: the bytes at an offset, at most as
many as asked for. -/
abbrev Readi := Nat -> Nat -> List UInt8

def ELF_MAGIC : Nat := 0x464C457F
def ELF_PROG_LOAD : Nat := 1

structure Elfhdr where
  magic : Nat
  phoff : Nat
  phnum : Nat

structure Proghdr where
  type : Nat
  flags : Nat
  off : Nat
  vaddr : Nat
  filesz : Nat
  memsz : Nat

def field (bytes : List UInt8) (off width : Nat) : Nat :=
  Bytes.getLE (fun i => bytes.getD i 0) off width

def Elfhdr.ofBytes (bytes : List UInt8) : Elfhdr :=
  { magic := field bytes 0 4
    phoff := field bytes 32 8
    phnum := field bytes 56 2 }

def Elfhdr.size : Nat := 64

def Proghdr.ofBytes (bytes : List UInt8) : Proghdr :=
  { type := field bytes 0 4
    flags := field bytes 4 4
    off := field bytes 8 8
    vaddr := field bytes 16 8
    filesz := field bytes 32 8
    memsz := field bytes 40 8 }

def Proghdr.size : Nat := 56

def flags2perm (flags : Nat) : Perm :=
  { r := false, w := flags.testBit 1, x := flags.testBit 0, u := false }

def loadsegLoop (readi : Readi) (m : Kmem) (pagetable : Page) (va offset sz : Nat) :
    Nat -> Nat -> Except Panic Bool
  | 0, _ => return true
  | n + 1, i => do
      match ← walkaddr m pagetable ((va + i) % 2 ^ 64) with
      | none => throw .loadsegAddress
      | some _ =>
        let k := if sz - i < PGSIZE then sz - i else PGSIZE
        if (readi ((offset + i) % 2 ^ 32) k).length ≠ k then
          return false
        else
          loadsegLoop readi m pagetable va offset sz n (i + PGSIZE)

/-- The result is `true` when the function returns 0. -/
def loadseg (readi : Readi) (m : Kmem) (pagetable : Page) (va offset sz : Nat) :
    Except Panic Bool :=
  loadsegLoop readi m pagetable va offset sz (pagesBetween 0 sz) 0

/-- The loop of `kexec` over the remaining `n` program headers; the result is the
size loaded, and `false` for `goto bad`. -/
def loadProgram (readi : Readi) (pagetable : Page) :
    Nat -> Kmem -> Nat -> Nat -> Except Panic (Kmem × Nat × Bool)
  | 0, m, _, sz => return (m, sz, true)
  | n + 1, m, off, sz =>
    let bytes := readi off Proghdr.size
    if bytes.length ≠ Proghdr.size then
      return (m, sz, false)
    else
      let ph := Proghdr.ofBytes bytes
      let next := (off + Proghdr.size) % 2 ^ 32
      if ph.type ≠ ELF_PROG_LOAD then
        loadProgram readi pagetable n m next sz
      else if ph.memsz < ph.filesz then
        return (m, sz, false)
      else if (ph.vaddr + ph.memsz) % 2 ^ 64 < ph.vaddr then
        return (m, sz, false)
      else if ph.vaddr % PGSIZE ≠ 0 then
        return (m, sz, false)
      else do
        let (m, sz1) ← uvmalloc m pagetable sz ((ph.vaddr + ph.memsz) % 2 ^ 64)
          (flags2perm ph.flags)
        if sz1 = 0 then
          return (m, sz, false)
        else
          let loaded ← loadseg readi m pagetable ph.vaddr (ph.off % 2 ^ 32)
            (ph.filesz % 2 ^ 32)
          if loaded then
            loadProgram readi pagetable n m next sz1
          else
            return (m, sz1, false)

def sub64 (a b : Nat) : Nat :=
  if b <= a then a - b else a + 2 ^ 64 - b

/-- `sp -= len; sp -= sp % 16`, and the copy to the stack if it fits. -/
def push (m : Kmem) (p : MyProc) (pagetable : Page) (stackbase sp len : Nat) :
    Except Panic (Kmem × Option Nat) :=
  let sp := sub64 sp len
  let sp := sp - sp % 16
  if sp < stackbase then
    return (m, none)
  else do
    let (m, done) ← copyout m p pagetable sp len
    return (m, if done then some sp else none)

/-- Copies the argument strings, of the lengths `args`, to the new stack. -/
def pushArgs (p : MyProc) (pagetable : Page) (stackbase : Nat) :
    List Nat -> Kmem -> Nat -> Nat -> Except Panic (Kmem × Option (Nat × Nat))
  | [], m, argc, sp => return (m, some (argc, sp))
  | len :: args, m, argc, sp =>
    if argc >= MAXARG then
      return (m, none)
    else do
      let (m, res) ← push m p pagetable stackbase sp (len + 1)
      match res with
      | none => return (m, none)
      | some sp => pushArgs p pagetable stackbase args m (argc + 1) sp

/-- The user stack above the program: a guard page, the stack, and on it the
arguments.  The result is the size, and `false` for `goto bad`. -/
def buildStack (p : MyProc) (args : List Nat) (m : Kmem) (pagetable : Page) (sz : Nat) :
    Except Panic (Kmem × Nat × Bool) := do
  let sz := pgroundup sz
  let (m, sz1) ← uvmalloc m pagetable sz (sz + (USERSTACK + 1) * PGSIZE)
    { r := false, w := true, x := false, u := false }
  if sz1 = 0 then
    return (m, sz, false)
  else
    let sz := sz1
    let m ← uvmclear m pagetable (sz - (USERSTACK + 1) * PGSIZE)
    let stackbase := sz - USERSTACK * PGSIZE
    let (m, res) ← pushArgs p pagetable stackbase args m 0 sz
    match res with
    | none => return (m, sz, false)
    | some (argc, sp) =>
      let (m, res) ← push m p pagetable stackbase sp ((argc + 1) * 8)
      return (m, sz, res.isSome)

/-- `kexec`.  The result is the new page table and size, which replace those of `p`,
or `none` when the function returns -1. -/
def kexec (m : Kmem) (trampoline trapframe : Page) (p : MyProc) (file : Option Readi)
    (args : List Nat) : Except Panic (Kmem × Option MyProc) :=
  match file with
  | none => return (m, none)
  | some readi =>
    let bytes := readi 0 Elfhdr.size
    if bytes.length ≠ Elfhdr.size then
      return (m, none)
    else
      let elf := Elfhdr.ofBytes bytes
      if elf.magic ≠ ELF_MAGIC then
        return (m, none)
      else do
        let (m, res) ← procPagetable m trampoline trapframe
        match res with
        | none => return (m, none)
        | some pagetable =>
          let (m, sz, loaded) ← loadProgram readi pagetable elf.phnum m
            (elf.phoff % 2 ^ 32) 0
          if !loaded then
            let m ← procFreepagetable m pagetable sz
            return (m, none)
          else
            let (m, sz, built) ← buildStack p args m pagetable sz
            if !built then
              let m ← procFreepagetable m pagetable sz
              return (m, none)
            else
              let m ← procFreepagetable m p.pagetable p.sz
              return (m, some { pagetable := pagetable, sz := sz })

end Process
end Xv6
