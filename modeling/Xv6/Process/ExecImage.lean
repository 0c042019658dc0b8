import Xv6.Process.ExecSpec
import Xv6.Process.Image

/-!
# `exec` with the bytes of the image

`kexec` of `exec.c` on the whole machine: the bytes of the program and of the stack, the
registers in the trapframe, the name of the process, and the inode and the transaction it
holds while it reads the file.
-/

namespace Xv6
namespace Vm

open Process

namespace Ram

/-- The loop of `loadseg` from `i` on; a read that is too short has written what it got. -/
def loadsegLoop (readi : Readi) (pagetable : Page) (va offset sz : Nat) :
    Nat -> Ram -> Nat -> Except Panic (Ram × Bool)
  | 0, x, _ => return (x, true)
  | n + 1, x, i => do
      match ← walkaddr x.kmem pagetable ((va + i) % 2 ^ 64) with
      | none => throw .loadsegAddress
      | some pa =>
        let k := if sz - i < PGSIZE then sz - i else PGSIZE
        let bytes := readi ((offset + i) % 2 ^ 32) k
        let x := x.store pa 0 bytes.length fun j => bytes.getD j 0
        if bytes.length ≠ k then
          return (x, false)
        else
          loadsegLoop readi pagetable va offset sz n x (i + PGSIZE)

/-- The result is `true` when the function returns 0. -/
def loadseg (x : Ram) (readi : Readi) (pagetable : Page) (va offset sz : Nat) :
    Except Panic (Ram × Bool) :=
  loadsegLoop readi pagetable va offset sz (pagesBetween 0 sz) x 0

def loadProgram (readi : Readi) (pagetable : Page) :
    Nat -> Ram -> Nat -> Nat -> Except Panic (Ram × Nat × Bool)
  | 0, x, _, sz => return (x, sz, true)
  | n + 1, x, off, sz =>
    let bytes := readi off Proghdr.size
    if bytes.length ≠ Proghdr.size then
      return (x, sz, false)
    else
      let ph := Proghdr.ofBytes bytes
      let next := (off + Proghdr.size) % 2 ^ 32
      if ph.type ≠ ELF_PROG_LOAD then
        loadProgram readi pagetable n x next sz
      else if ph.memsz < ph.filesz then
        return (x, sz, false)
      else if (ph.vaddr + ph.memsz) % 2 ^ 64 < ph.vaddr then
        return (x, sz, false)
      else if ph.vaddr % PGSIZE ≠ 0 then
        return (x, sz, false)
      else do
        let (x, sz1) ← x.uvmalloc pagetable sz ((ph.vaddr + ph.memsz) % 2 ^ 64)
          (flags2perm ph.flags)
        if sz1 = 0 then
          return (x, sz, false)
        else
          let (x, loaded) ← x.loadseg readi pagetable ph.vaddr (ph.off % 2 ^ 32)
            (ph.filesz % 2 ^ 32)
          if loaded then
            loadProgram readi pagetable n x next sz1
          else
            return (x, sz1, false)

/-- `sp -= len; sp -= sp % 16`, and the copy of `len` bytes to the stack if it fits. -/
def push (x : Ram) (p : MyProc) (pagetable : Page) (stackbase sp : Nat) (src : Nat -> UInt8)
    (len : Nat) : Except Panic (Ram × Option Nat) :=
  let sp := sub64 sp len
  let sp := sp - sp % 16
  if sp < stackbase then
    return (x, none)
  else do
    let (x, done) ← x.copyout p pagetable sp src len
    return (x, if done then some sp else none)

/-- Copies the argument strings to the new stack; `ustack` are the addresses so far. -/
def pushArgs (p : MyProc) (pagetable : Page) (stackbase : Nat) :
    List (List UInt8) -> Ram -> List Nat -> Nat -> Except Panic (Ram × Option (List Nat × Nat))
  | [], x, ustack, sp => return (x, some (ustack, sp))
  | arg :: args, x, ustack, sp =>
    if ustack.length >= MAXARG then
      return (x, none)
    else do
      -- the terminating NUL is copied with the string
      let (x, res) ← x.push p pagetable stackbase sp (fun j => arg.getD j 0) (arg.length + 1)
      match res with
      | none => return (x, none)
      | some sp => pushArgs p pagetable stackbase args x (ustack ++ [sp]) sp

def words (ws : List Nat) (j : Nat) : UInt8 :=
  UInt8.ofNat (ws.getD (j / 8) 0 / 256 ^ (j % 8))

/-- The argument strings and the array of pointers to them, on the stack that ends at `sz`. -/
def pushStack (x : Ram) (p : MyProc) (args : List (List UInt8)) (pagetable : Page) (sz : Nat) :
    Except Panic (Ram × Option (List Nat × Nat)) := do
  let stackbase := sz - USERSTACK * PGSIZE
  let (x, res) ← pushArgs p pagetable stackbase args x [] sz
  match res with
  | none => return (x, none)
  | some (ustack, sp) =>
    let (x, res) ← x.push p pagetable stackbase sp (words (ustack ++ [0]))
      ((ustack.length + 1) * 8)
    return (x, res.map fun sp => (ustack, sp))

/-- The user stack above the program: a guard page, the stack, and on it the arguments.  The
result is the size, and the argument pointers and the stack pointer unless `goto bad`. -/
def buildStack (x : Ram) (p : MyProc) (args : List (List UInt8)) (pagetable : Page) (sz : Nat) :
    Except Panic (Ram × Nat × Option (List Nat × Nat)) := do
  let sz := pgroundup sz
  let (x, sz1) ← x.uvmalloc pagetable sz (sz + (USERSTACK + 1) * PGSIZE)
    { r := false, w := true, x := false, u := false }
  if sz1 = 0 then
    return (x, sz, none)
  else
    let sz := sz1
    let x ← x.uvmclear pagetable (sz - (USERSTACK + 1) * PGSIZE)
    let (x, res) ← x.pushStack p args pagetable sz
    return (x, sz, res)

end Ram
end Vm

namespace Process

open Lib Vm

def EPC : Nat := 24

def SP : Nat := 48

def A1 : Nat := 120

def lastElem (last : List UInt8) : List UInt8 -> List UInt8
  | [] => last
  | c :: s => lastElem (if c = 47 then s else last) s

def Elfhdr.entry (bytes : List UInt8) : Nat :=
  field bytes 24 8

namespace Machine

def beginOp (s : Machine) : Machine :=
  { s with outstanding := s.outstanding + 1 }

def endOp (s : Machine) : Machine :=
  { s with outstanding := s.outstanding - 1 }

/-- `ilock` of the inode that `namei` has returned with a reference. -/
def lockFile (s : Machine) (ip : Nat) : Machine :=
  { s.idup ip with inodeLocked := Function.update s.inodeLocked ip true }

def iunlockput (s : Machine) (ip : Nat) : Machine :=
  { s with
    inodeRef := Function.update s.inodeRef ip (s.inodeRef ip - 1)
    inodeLocked := Function.update s.inodeLocked ip false }

def setReg (s : Machine) (i off w : Nat) : Machine :=
  s.setRam (s.ram.store (s.kernel.proc i).trapframe off 8 (Ram.words [w]))

/-- What `kexec` writes once the image is complete: the registers, the name of the program, and
the page table and the size. -/
def commit (s : Machine) (i : Nat) (path : List UInt8) (entry : Nat) (pagetable : Page)
    (sz sp : Nat) : Machine :=
  let s := s.setReg i A1 sp
  let last := lastElem path path
  let s := s.setSlot i { s.slot i with
    name := safestrcpy (s.slot i).name (fun k => last.getD k 0) 16 }
  let s := s.setProc i { s.kernel.proc i with
    pagetable := pagetable
    sz := sz }
  (s.setReg i EPC entry).setReg i SP sp

/-- `kexec(path, argv)`, where `file` is what `namei` makes of the path.  The result is `argc`, or
`none` when the function returns -1. -/
def kexec (s : Machine) (i : Nat) (path : List UInt8) (file : Option (Nat × Readi))
    (args : List (List UInt8)) : Except Panic (Machine × Option Nat) :=
  let s := s.beginOp
  match file with
  | none => return (s.endOp, none)
  | some (ip, readi) =>
    let s := s.lockFile ip
    let bytes := readi 0 Elfhdr.size
    if bytes.length ≠ Elfhdr.size then
      return ((s.iunlockput ip).endOp, none)
    else
      let elf := Elfhdr.ofBytes bytes
      if elf.magic ≠ ELF_MAGIC then
        return ((s.iunlockput ip).endOp, none)
      else do
        let (x, res) ← s.ram.procPagetable s.kernel.trampoline (s.kernel.proc i).trapframe
        match res with
        | none => return (((s.setRam x).iunlockput ip).endOp, none)
        | some pagetable =>
          let (x, sz, loaded) ← Ram.loadProgram readi pagetable elf.phnum x
            (elf.phoff % 2 ^ 32) 0
          if !loaded then
            let x ← x.procFreepagetable pagetable sz
            return (((s.setRam x).iunlockput ip).endOp, none)
          else
            let s := ((s.setRam x).iunlockput ip).endOp
            let p := s.kernel.proc i
            let (x, sz, built) ← s.ram.buildStack (s.kernel.myproc i) args pagetable sz
            let s := s.setRam x
            match built with
            | none =>
              let x ← x.procFreepagetable pagetable sz
              return (s.setRam x, none)
            | some (ustack, sp) =>
              let s := s.commit i path (Elfhdr.entry bytes) pagetable sz sp
              let x ← s.ram.procFreepagetable p.pagetable p.sz
              return (s.setRam x, some ustack.length)

end Machine

theorem commit_kernel (s : Machine) (i : Nat) (path : List UInt8) (entry : Nat) (pagetable : Page)
    (sz sp : Nat) :
    (s.commit i path entry pagetable sz sp).kernel =
      s.kernel.setProc i { s.kernel.proc i with
        pagetable := pagetable
        sz := sz } :=
  rfl

/-!
## The functions on `Kmem`
-/

section Erase

theorem loadsegLoop_kmem (readi : Readi) (r : Page) (va offset sz n : Nat) (x : Ram) (i : Nat) :
    erase (Ram.loadsegLoop readi r va offset sz n x i) =
      (loadsegLoop readi x.kmem r va offset sz n i).map fun loaded => (x.kmem, loaded) := by
  induction n generalizing x i with
  | zero => rfl
  | succ n ih =>
    unfold Ram.loadsegLoop loadsegLoop erase
    rw [map_bind, map_bind]
    refine congrArg _ (funext fun pa => ?_)
    cases pa with
    | none => rfl
    | some pa =>
      dsimp only
      generalize (if sz - i < PGSIZE then sz - i else PGSIZE) = k
      split
      · rfl
      · exact ih _ _

theorem loadseg_kmem (x : Ram) (readi : Readi) (r : Page) (va offset sz : Nat) :
    erase (x.loadseg readi r va offset sz) =
      (loadseg readi x.kmem r va offset sz).map fun loaded => (x.kmem, loaded) :=
  loadsegLoop_kmem readi r va offset sz _ x 0

theorem loadProgram_kmem (readi : Readi) (r : Page) (n : Nat) (x : Ram) (off sz : Nat) :
    erase (Ram.loadProgram readi r n x off sz) = loadProgram readi r n x.kmem off sz := by
  induction n generalizing x off sz with
  | zero => rfl
  | succ n ih =>
    unfold Ram.loadProgram loadProgram
    dsimp only
    generalize Proghdr.ofBytes (readi off Proghdr.size) = ph
    split
    · rfl
    split
    · exact ih _ _ _
    split
    · rfl
    split
    · rfl
    split
    · rfl
    refine bind_sim (uvmalloc_kmem x r _ _ _) ?_
    rintro ⟨y, sz1⟩
    dsimp only
    split
    · rfl
    have hload := loadseg_kmem y readi r ph.vaddr (ph.off % 2 ^ 32) (ph.filesz % 2 ^ 32)
    rw [map_bind]
    cases hrun : loadseg readi y.kmem r ph.vaddr (ph.off % 2 ^ 32) (ph.filesz % 2 ^ 32) with
    | error e =>
      rw [hrun] at hload
      rw [map_eq_error.mp hload]
      rfl
    | ok loaded =>
      rw [hrun] at hload
      rcases map_eq_ok.mp hload with ⟨⟨z, loaded'⟩, hrun', heq⟩
      have hz : z.kmem = y.kmem := congrArg Prod.fst heq
      have hloaded : loaded' = loaded := congrArg Prod.snd heq
      subst hloaded
      rw [hrun', ok_bind, ok_bind, ← hz]
      dsimp only
      split
      · exact ih _ _ _
      · rfl

theorem push_kmem (x : Ram) (p : MyProc) (r : Page) (stackbase sp : Nat) (src : Nat -> UInt8)
    (len : Nat) :
    erase (x.push p r stackbase sp src len) = push x.kmem p r stackbase sp len := by
  unfold Ram.push push
  dsimp only
  split
  · rfl
  · exact bind_sim (copyout_kmem x p r _ src len) fun _ => rfl

def counted (res : Option (List Nat × Nat)) : Option (Nat × Nat) :=
  res.map fun (ustack, sp) => (ustack.length, sp)

theorem pushArgs_kmem (p : MyProc) (r : Page) (stackbase : Nat) (args : List (List UInt8)) (x : Ram)
    (ustack : List Nat) (sp : Nat) :
    (Ram.pushArgs p r stackbase args x ustack sp).map (fun (y, res) => (y.kmem, counted res)) =
      pushArgs p r stackbase (args.map List.length) x.kmem ustack.length sp := by
  induction args generalizing x ustack sp with
  | nil => rfl
  | cons arg args ih =>
    rw [List.map_cons]
    unfold Ram.pushArgs pushArgs
    split
    · rfl
    · refine bind_sim (push_kmem x p r stackbase sp (fun j => arg.getD j 0) _) ?_
      rintro ⟨y, sp'⟩
      cases sp' with
      | none => rfl
      | some sp' =>
        have hrest := ih y (ustack ++ [sp']) sp'
        rw [List.length_append, List.length_singleton] at hrest
        exact hrest

theorem buildStack_kmem (x : Ram) (p : MyProc) (args : List (List UInt8)) (r : Page) (sz : Nat) :
    (x.buildStack p args r sz).map (fun (y, sz, built) => (y.kmem, sz, built.isSome)) =
      buildStack p (args.map List.length) x.kmem r sz := by
  refine bind_sim (uvmalloc_kmem x r _ _ _) ?_
  rintro ⟨y, sz1⟩
  dsimp only
  split
  · rfl
  · refine bind_sim (uvmclear_kmem y r _) fun z => ?_
    unfold Ram.pushStack
    rw [bind_assoc]
    refine bind_sim (pushArgs_kmem p r (sz1 - USERSTACK * PGSIZE) args z [] sz1) ?_
    rintro ⟨w, res⟩
    cases res with
    | none => rfl
    | some reached =>
      rcases reached with ⟨ustack, sp⟩
      dsimp only
      rw [bind_assoc]
      refine bind_sim (push_kmem w p r _ sp (Ram.words (ustack ++ [0])) _) ?_
      rintro ⟨v, res⟩
      cases res with
      | none => rfl
      | some sp => rfl

def Kernel.image (k : Kernel) (i : Nat) (m : Kmem) : Option MyProc -> Kernel × Bool
  | none => ({ k with kmem := m }, false)
  | some np =>
    ({ k with kmem := m }.setProc i { k.proc i with
      pagetable := np.pagetable
      sz := np.sz }, true)

theorem kexec_forget (s : Machine) (i : Nat) (path : List UInt8) (file : Option (Nat × Readi))
    (args : List (List UInt8)) :
    (s.kexec i path file args).map (fun (s', res) => (s'.kernel, res.isSome)) =
      (kexec s.kernel.kmem s.kernel.trampoline (s.kernel.proc i).trapframe (s.kernel.myproc i)
        (file.map Prod.snd) (args.map List.length)).map fun (m, res) => s.kernel.image i m res := by
  unfold Machine.kexec kexec
  cases file with
  | none => rfl
  | some opened =>
    rcases opened with ⟨ip, readi⟩
    dsimp only [Option.map_some]
    split
    · rfl
    split
    · rfl
    refine (bind_sim (procPagetable_kmem (s.beginOp.lockFile ip).ram s.kernel.trampoline
      (s.kernel.proc i).trapframe) ?_).trans (map_bind _ _ _).symm
    rintro ⟨x, pagetable⟩
    cases pagetable with
    | none => rfl
    | some pagetable =>
      refine (bind_sim (loadProgram_kmem readi pagetable _ x _ 0) ?_).trans (map_bind _ _ _).symm
      rintro ⟨y, sz, loaded⟩
      cases loaded with
      | false =>
        exact (bind_sim (procFreepagetable_kmem y pagetable sz) fun _ => rfl).trans
          (map_bind _ _ _).symm
      | true =>
        refine (bind_sim (buildStack_kmem y (s.kernel.myproc i) args pagetable sz) ?_).trans
          (map_bind _ _ _).symm
        rintro ⟨z, sz', built⟩
        cases built with
        | none =>
          exact (bind_sim (procFreepagetable_kmem z pagetable sz') fun _ => rfl).trans
            (map_bind _ _ _).symm
        | some reached =>
          exact (bind_sim (procFreepagetable_kmem _ (s.kernel.proc i).pagetable
            (s.kernel.proc i).sz) fun _ => rfl).trans (map_bind _ _ _).symm

end Erase

end Process
end Xv6
