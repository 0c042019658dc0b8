import Xv6.Process.ExecStack
import Xv6.Process.Failure

/-!
# `exec` replaces the image or leaves it

The exits of `kexec`.  Up to the commit the pages of the new image come from the free list and the
old image is untouched; afterwards the old image is freed.
-/

namespace Xv6
namespace Process

open Lib Vm Function

def Machine.released (s : Machine) (ip : Nat) : Machine :=
  { s with inodeLocked := update s.inodeLocked ip false }

theorem released_eq (s : Machine) (ip : Nat) (x : Ram) :
    (((s.beginOp.lockFile ip).setRam x).iunlockput ip).endOp = (s.released ip).setRam x := by
  unfold Machine.endOp Machine.iunlockput Machine.setRam Machine.lockFile Machine.idup
    Machine.beginOp Machine.released
  simp

inductive ExecRun (s : Machine) (i : Nat) (path : List UInt8) (args : List (List UInt8)) :
    Option (Nat × Readi) -> Machine -> Option Nat -> Prop where
  | missing : ExecRun s i path args none s none
  | header {ip : Nat} {readi : Readi} :
      ((readi 0 Elfhdr.size).length = Elfhdr.size ->
        (Elfhdr.ofBytes (readi 0 Elfhdr.size)).magic ≠ ELF_MAGIC) ->
      ExecRun s i path args (some (ip, readi)) (s.released ip) none
  | memory {ip : Nat} {readi : Readi} {x1 : Ram} :
      s.ram.procPagetable s.kernel.trampoline (s.kernel.proc i).trapframe = .ok (x1, none) ->
      ExecRun s i path args (some (ip, readi)) ((s.released ip).setRam x1) none
  | program {ip : Nat} {readi : Readi} {x1 x2 x3 : Ram} {r : Page} {sz : Nat} :
      s.ram.procPagetable s.kernel.trampoline (s.kernel.proc i).trapframe = .ok (x1, some r) ->
      Ram.loadProgram readi r (Elfhdr.ofBytes (readi 0 Elfhdr.size)).phnum x1
        ((Elfhdr.ofBytes (readi 0 Elfhdr.size)).phoff % 2 ^ 32) 0 = .ok (x2, sz, false) ->
      x2.procFreepagetable r sz = .ok x3 ->
      ExecRun s i path args (some (ip, readi)) ((s.released ip).setRam x3) none
  | stack {ip : Nat} {readi : Readi} {x1 x2 x3 x4 : Ram} {r : Page} {sz top : Nat} :
      s.ram.procPagetable s.kernel.trampoline (s.kernel.proc i).trapframe = .ok (x1, some r) ->
      Ram.loadProgram readi r (Elfhdr.ofBytes (readi 0 Elfhdr.size)).phnum x1
        ((Elfhdr.ofBytes (readi 0 Elfhdr.size)).phoff % 2 ^ 32) 0 = .ok (x2, sz, true) ->
      x2.buildStack (s.kernel.myproc i) args r sz = .ok (x3, top, none) ->
      x3.procFreepagetable r top = .ok x4 ->
      ExecRun s i path args (some (ip, readi)) ((s.released ip).setRam x4) none
  | done {ip : Nat} {readi : Readi} {x1 x2 x3 x4 : Ram} {r : Page} {sz top sp : Nat}
      {ustack : List Nat} :
      (readi 0 Elfhdr.size).length = Elfhdr.size ->
      (Elfhdr.ofBytes (readi 0 Elfhdr.size)).magic = ELF_MAGIC ->
      s.ram.procPagetable s.kernel.trampoline (s.kernel.proc i).trapframe = .ok (x1, some r) ->
      Ram.loadProgram readi r (Elfhdr.ofBytes (readi 0 Elfhdr.size)).phnum x1
        ((Elfhdr.ofBytes (readi 0 Elfhdr.size)).phoff % 2 ^ 32) 0 = .ok (x2, sz, true) ->
      x2.buildStack (s.kernel.myproc i) args r sz = .ok (x3, top, some (ustack, sp)) ->
      (((s.released ip).setRam x3).commit i path (Elfhdr.entry (readi 0 Elfhdr.size)) r top
        sp).ram.procFreepagetable (s.kernel.proc i).pagetable (s.kernel.proc i).sz = .ok x4 ->
      ExecRun s i path args (some (ip, readi))
        ((((s.released ip).setRam x3).commit i path (Elfhdr.entry (readi 0 Elfhdr.size)) r top
          sp).setRam x4) (some ustack.length)

theorem kexec_run {s s' : Machine} {i : Nat} {path : List UInt8} {file : Option (Nat × Readi)}
    {args : List (List UInt8)} {res : Option Nat}
    (hrun : s.kexec i path file args = .ok (s', res)) : ExecRun s i path args file s' res := by
  unfold Machine.kexec at hrun
  cases file with
  | none =>
    cases hrun
    exact .missing
  | some opened =>
    rcases opened with ⟨ip, readi⟩
    have hself : ((s.beginOp.lockFile ip).iunlockput ip).endOp = s.released ip := by
      have heq := released_eq s ip s.ram
      exact heq
    dsimp only at hrun
    split at hrun
    next hread =>
      cases hrun
      rw [hself]
      exact .header fun hfull => absurd hfull hread
    next hread =>
    split at hrun
    next hmagic =>
      cases hrun
      rw [hself]
      exact .header fun _ => hmagic
    next hmagic =>
    rcases bind_eq_ok.mp hrun with ⟨⟨x1, table⟩, htable, hrest⟩
    cases table with
    | none =>
      cases hrest
      rw [released_eq]
      exact .memory htable
    | some r =>
      rcases bind_eq_ok.mp hrest with ⟨⟨x2, sz, loaded⟩, hload, hrest⟩
      cases loaded with
      | false =>
        rcases bind_eq_ok.mp hrest with ⟨x3, hfree, hlast⟩
        cases hlast
        rw [released_eq]
        exact .program htable hload hfree
      | true =>
        dsimp only at hrest
        rw [released_eq] at hrest
        rcases bind_eq_ok.mp hrest with ⟨⟨x3, top, built⟩, hbuild, hrest⟩
        cases built with
        | none =>
          rcases bind_eq_ok.mp hrest with ⟨x4, hfree, hlast⟩
          cases hlast
          exact .stack htable hload hbuild hfree
        | some reached =>
          rcases reached with ⟨ustack, sp⟩
          rcases bind_eq_ok.mp hrest with ⟨x4, hfree, hlast⟩
          cases hlast
          exact .done (Decidable.not_not.mp hread) (Decidable.not_not.mp hmagic) htable hload hbuild
            hfree

section

variable {s s' : Machine} {i : Nat} {x1 x2 x3 x4 : Ram} {r : Page} {sz top : Nat} {readi : Readi}

/-!
## The new image
-/

theorem procPagetable_image (hgood : Good s.kernel.kmem fun _ => 0)
    (htable : s.ram.procPagetable s.kernel.trampoline (s.kernel.proc i).trapframe =
      .ok (x1, some r)) :
    Moves s.ram x1 (fun _ => 0) (use x1.kmem r) ∧
      Image x1.kmem s.kernel.trampoline (s.kernel.proc i).trapframe r 0 := by
  rcases procPagetable_spec s.kernel.trampoline (s.kernel.proc i).trapframe hgood with
    ⟨m, res, hrun, _, hsome⟩
  have hkmem := procPagetable_kmem s.ram s.kernel.trampoline (s.kernel.proc i).trapframe
  rw [htable] at hkmem
  have heq : .ok (m, res) = Except.ok (x1.kmem, some r) := hrun.symm.trans hkmem.symm
  cases heq
  rcases hsome r rfl with ⟨hcons, hspace⟩
  refine ⟨Moves.of_data hcons (procPagetable_data htable), ?_⟩
  exact
    { space := hspace
      size_le := Nat.zero_le _
      present := fun v hv => absurd hv (Nat.not_lt_zero v)
      room := by
        rw [show pages 0 = 0 from by decide, Nat.zero_add]
        exact free_length_le (hgood.conserve hcons) }

theorem procPagetable_undone (hgood : Good s.kernel.kmem fun _ => 0)
    (htable : s.ram.procPagetable s.kernel.trampoline (s.kernel.proc i).trapframe =
      .ok (x1, none)) : Moves s.ram x1 (fun _ => 0) (fun _ => 0) := by
  rcases procPagetable_spec s.kernel.trampoline (s.kernel.proc i).trapframe hgood with
    ⟨m, res, hrun, hnone, _⟩
  have hkmem := procPagetable_kmem s.ram s.kernel.trampoline (s.kernel.proc i).trapframe
  rw [htable] at hkmem
  have heq : .ok (m, res) = Except.ok (x1.kmem, none) := hrun.symm.trans hkmem.symm
  cases heq
  exact Moves.of_data (hnone rfl) (procPagetable_data htable)

theorem procFreepagetable_moves {x y : Ram} {trampoline trapframe : Page} (hsz : sz <= TRAPFRAME)
    (hspace : Space x.kmem trampoline trapframe r (pages sz)) (hgood : Good x.kmem (use x.kmem r))
    (hrun : x.procFreepagetable r sz = .ok y) : Moves x y (use x.kmem r) (fun _ => 0) := by
  rcases procFreepagetable_spec hsz hspace hgood with ⟨m, hrun', hcons⟩
  rw [← procFreepagetable_kmem, hrun] at hrun'
  cases hrun'
  exact (freeing_procFreepagetable hrun).moves hcons

theorem loadProgram_image (hread : forall off n, (readi off n).length <= n)
    (hgood : Good s.kernel.kmem fun _ => 0) {n off : Nat} {loaded : Bool}
    (htable : s.ram.procPagetable s.kernel.trampoline (s.kernel.proc i).trapframe =
      .ok (x1, some r))
    (hload : Ram.loadProgram readi r n x1 off 0 = .ok (x2, sz, loaded)) :
    Moves s.ram x2 (fun _ => 0) (use x2.kmem r) ∧ sz <= TRAPFRAME ∧
      Space x2.kmem s.kernel.trampoline (s.kernel.proc i).trapframe r (pages sz) ∧
      (loaded = true -> Image x2.kmem s.kernel.trampoline (s.kernel.proc i).trapframe r sz) := by
  rcases procPagetable_image hgood htable with ⟨hmoves, himage⟩
  rcases loadProgram_moves hread himage (hgood.conserve hmoves.conserve) hload with
    ⟨hmoves', hspec⟩
  exact ⟨hmoves.trans hmoves', hspec⟩

theorem buildStack_image (hread : forall off n, (readi off n).length <= n)
    (hgood : Good s.kernel.kmem fun _ => 0)
    {args : List (List UInt8)} (hargs : forall arg, arg ∈ args -> arg.length < 2 ^ 31) {n off : Nat}
    {p : MyProc} {built : Option (List Nat × Nat)}
    (htable : s.ram.procPagetable s.kernel.trampoline (s.kernel.proc i).trapframe =
      .ok (x1, some r))
    (hload : Ram.loadProgram readi r n x1 off 0 = .ok (x2, sz, true))
    (hbuild : x2.buildStack p args r sz = .ok (x3, top, built)) :
    Moves s.ram x3 (fun _ => 0) (use x3.kmem r) ∧ top <= TRAPFRAME ∧
      Space x3.kmem s.kernel.trampoline (s.kernel.proc i).trapframe r (pages top) ∧
      forall ustack sp, built = some (ustack, sp) -> StackBuilt x2 x3 r args sz top ustack sp := by
  rcases loadProgram_image hread hgood htable hload with ⟨hmoves, _, _, himage⟩
  rcases buildStack_built p hargs (himage rfl) (hgood.conserve hmoves.conserve) with
    ⟨y, sz', built', hrun, hmoves', hspec⟩
  rw [hbuild] at hrun
  cases hrun
  exact ⟨hmoves.trans hmoves', hspec⟩

/-!
## All or nothing
-/

/-- Everything but the memory is as before, the inode of the file is not locked, and the memory
differs in the free pages only. -/
structure ExecUndone (s s' : Machine) (file : Option (Nat × Readi)) : Prop where
  state : s' = (match file with
    | none => s
    | some (ip, _) => s.released ip).setRam s'.ram
  free : s'.kernel.kmem.free.Perm s.kernel.kmem.free
  memory : forall q, q ∉ s.kernel.kmem.free ->
    s'.kernel.kmem.entry q = s.kernel.kmem.entry q ∧ s'.data q = s.data q

theorem execUndone_of_moves {ip : Nat} (hmoves : Moves s.ram x1 (fun _ => 0) (fun _ => 0)) :
    ExecUndone s ((s.released ip).setRam x1) (some (ip, readi)) :=
  ⟨rfl, (moves_undone hmoves).1, (moves_undone hmoves).2⟩

structure ExecFreed (s s' : Machine) (i : Nat) : Prop where
  inodeRef : s'.inodeRef = s.inodeRef
  outstanding : s'.outstanding = s.outstanding
  once : forall q, use s.kernel.kmem (s.kernel.proc i).pagetable q ≠ 0 ->
    s'.kernel.kmem.free.count q = 1
  others : forall q, use s.kernel.kmem (s.kernel.proc i).pagetable q + s.kernel.kmem.free.count q =
    use s'.kernel.kmem (s'.kernel.proc i).pagetable q + s'.kernel.kmem.free.count q

theorem committed_proc (s : Machine) (i : Nat) (path : List UInt8) (entry : Nat) (pagetable : Page)
    (sz sp : Nat) (x : Ram) :
    ((s.commit i path entry pagetable sz sp).setRam x).kernel.proc i =
      { s.kernel.proc i with
        pagetable := pagetable
        sz := sz } := by
  change (s.commit i path entry pagetable sz sp).kernel.proc i = _
  rw [commit_kernel]
  exact update_self _ _ _

theorem setReg_data (s : Machine) (i off w : Nat) {q : Page}
    (hq : q ≠ (s.kernel.proc i).trapframe) : (s.setReg i off w).data q = s.data q :=
  update_of_ne hq _ _

theorem commit_data (s : Machine) (i : Nat) (path : List UInt8) (entry : Nat) (pagetable : Page)
    (sz sp : Nat) {q : Page} (hq : q ≠ (s.kernel.proc i).trapframe) :
    (s.commit i path entry pagetable sz sp).data q = s.data q := by
  have hproc : (s.kernel.setProc i { s.kernel.proc i with
      pagetable := pagetable
      sz := sz }).proc i = { s.kernel.proc i with
        pagetable := pagetable
        sz := sz } := update_self _ _ _
  have htf : ((s.kernel.setProc i { s.kernel.proc i with
      pagetable := pagetable
      sz := sz }).proc i).trapframe = (s.kernel.proc i).trapframe := by
    rw [hproc]
  unfold Machine.commit
  dsimp only
  rw [setReg_data, setReg_data]
  · exact setReg_data s i A1 sp hq
  · intro heq
    exact hq (heq.trans htf)
  · intro heq
    exact hq (heq.trans htf)

theorem exec_replaced (h : Holder s.kernel i) {path : List UInt8} {entry sp ip : Nat}
    (hmoves : Moves s.ram x3 (fun _ => 0) (use x3.kmem r))
    (hfree : (((s.released ip).setRam x3).commit i path entry r top sp).ram.procFreepagetable
      (s.kernel.proc i).pagetable (s.kernel.proc i).sz = .ok x4) :
    Conserve s.kernel.kmem x4.kmem (use s.kernel.kmem (s.kernel.proc i).pagetable)
        (use x4.kmem r) ∧
      (forall q, use s.kernel.kmem (s.kernel.proc i).pagetable q ≠ 0 -> use x4.kmem r q = 0) ∧
      Kept x3 x4 r USERTOP ∧
      x4.data (s.kernel.proc i).trapframe =
        (((s.released ip).setRam x3).commit i path entry r top sp).data
          (s.kernel.proc i).trapframe := by
  have hcons : Conserve s.kernel.kmem x3.kmem (fun _ => 0) (use x3.kmem r) := hmoves.conserve
  have hold : Same s.kernel.kmem x3.kmem (s.kernel.proc i).pagetable :=
    hcons.same_of_take h.good h.nodes_le
  have hboth : Good x3.kmem (fun q => use x3.kmem r q + memUse s.kernel.kmem (s.kernel.proc i) q) :=
    h.good.conserve ((hcons.add (memUse s.kernel.kmem (s.kernel.proc i))).congr
      (fun q => (Nat.zero_add _).symm) fun _ => rfl)
  have hle : forall q, use x3.kmem (s.kernel.proc i).pagetable q +
    one (s.kernel.proc i).trapframe q <=
      memUse s.kernel.kmem (s.kernel.proc i) q := by
    intro q
    rw [hold.use_eq q]
    exact h.use_le q
  have hkmem : procFreepagetable x3.kmem (s.kernel.proc i).pagetable (s.kernel.proc i).sz =
      .ok x4.kmem := by
    have herase := procFreepagetable_kmem (((s.released ip).setRam x3).commit i path entry r top
      sp).ram (s.kernel.proc i).pagetable (s.kernel.proc i).sz
    rw [hfree] at herase
    exact herase.symm
  have hcons4 := procFreepagetable_freed (hold.inner h.inner) (hboth.mono fun q => by
    have hq := hle q
    omega) hkmem
  have hkeep : Same x3.kmem x4.kmem r :=
    hcons4.same_of_good (Y := use x3.kmem r) (hboth.mono fun q => by
      have hq := hle q
      omega) (nodes_le_use x3.kmem r)
  have hfreeing := freeing_procFreepagetable hfree
  refine ⟨?_, ?_, ⟨fun v _ => hkeep.leaf_eq v, ?_⟩, ?_⟩
  · have hfirst := (hcons.add (use s.kernel.kmem (s.kernel.proc i).pagetable)).congr
      (Y := use s.kernel.kmem (s.kernel.proc i).pagetable) (fun q => (Nat.zero_add _).symm)
      (fun _ => rfl)
    refine hfirst.trans ((hcons4.add (use x3.kmem r)).congr ?_ ?_)
    · intro q
      rw [hold.use_eq q, Nat.add_comm]
    · intro q
      rw [hkeep.use_eq q, Nat.zero_add]
  · intro q hq
    have hone := hboth.le_one q
    have huse := h.use_le q
    rw [hkeep.use_eq q]
    omega
  · intro a ha hvalid
    have huse := leaf_in_use (m := x3.kmem) (r := r) ha hvalid
    unfold Ram.byteAt
    rw [hkeep.leaf_eq]
    generalize (leafAt x3.kmem r (a / PGSIZE)).ppn = q at huse
    have hone := hboth.le_one q
    have hq := hle q
    have htotal := hcons4.total q
    have hne : q ≠ (s.kernel.proc i).trapframe := by
      intro heq
      rw [heq, one_self] at hq
      rw [heq] at hone huse
      omega
    rw [hfreeing.data q (List.count_eq_zero.mp (by omega))]
    exact congrFun (commit_data ((s.released ip).setRam x3) i path entry r top sp hne) _
  · have hone := hboth.le_one (s.kernel.proc i).trapframe
    have hq := hle (s.kernel.proc i).trapframe
    have htotal := hcons4.total (s.kernel.proc i).trapframe
    rw [one_self] at hq
    exact hfreeing.data _ (List.count_eq_zero.mp (by omega))

variable {path : List UInt8} {file : Option (Nat × Readi)} {args : List (List UInt8)}

theorem ExecRun.undone (hgood : Good s.kernel.kmem fun _ => 0)
    (hread : forall ip readi, file = some (ip, readi) -> forall off n, (readi off n).length <= n)
    (hargs : forall arg, arg ∈ args -> arg.length < 2 ^ 31)
    (hrun : ExecRun s i path args file s' none) : ExecUndone s s' file := by
  cases hrun with
  | missing => exact ⟨rfl, List.Perm.refl _, fun _ _ => ⟨rfl, rfl⟩⟩
  | header _ => exact execUndone_of_moves (Moves.refl _ _)
  | memory htable => exact execUndone_of_moves (procPagetable_undone hgood htable)
  | program htable hload hfree =>
    rcases loadProgram_image (hread _ _ rfl) hgood htable hload with ⟨hmoves, hsz, hspace, _⟩
    have hfreed := procFreepagetable_moves hsz hspace (hgood.conserve hmoves.conserve) hfree
    exact execUndone_of_moves (hmoves.trans hfreed)
  | stack htable hload hbuild hfree =>
    rcases buildStack_image (hread _ _ rfl) hgood hargs htable hload hbuild with
      ⟨hmoves, hsz, hspace, _⟩
    have hfreed := procFreepagetable_moves hsz hspace (hgood.conserve hmoves.conserve) hfree
    exact execUndone_of_moves (hmoves.trans hfreed)

theorem ExecUndone.intact (hun : ExecUndone s s' file) (h : Holder s.kernel i) : Intact s s' i := by
  have hstate := hun.state
  refine h.intact ?_ ?_ hun.memory
  · rw [hstate]
    cases file with
    | none => rfl
    | some opened => rfl
  · rw [hstate]
    cases file with
    | none => rfl
    | some opened => rfl

theorem ExecRun.freed (h : Holder s.kernel i)
    (hread : forall ip readi, file = some (ip, readi) -> forall off n, (readi off n).length <= n)
    (hargs : forall arg, arg ∈ args -> arg.length < 2 ^ 31) {argc : Nat}
    (hrun : ExecRun s i path args file s' (some argc)) : ExecFreed s s' i := by
  have hgood : Good s.kernel.kmem fun _ => 0 := h.good.mono fun _ => Nat.zero_le _
  cases hrun with
  | @done ip readi x1 x2 x3 x4 r sz top sp ustack _ _ htable hload hbuild hfree =>
    rcases buildStack_image (hread _ _ rfl) hgood hargs htable hload hbuild with
      ⟨hmoves, _, _, _⟩
    rcases exec_replaced h hmoves hfree with ⟨hcons, hnew, _, _⟩
    have htable' : (((((s.released ip).setRam x3).commit i path
        (Elfhdr.entry (readi 0 Elfhdr.size)) r top sp).setRam x4).kernel.proc i).pagetable = r := by
      rw [committed_proc]
    refine ⟨rfl, rfl, ?_, ?_⟩
    · intro q hq
      have htotal := hcons.total q
      have hzero := hnew q hq
      have hone := h.good_use.le_one q
      change x4.kmem.free.count q = 1
      omega
    · intro q
      rw [htable']
      exact (hcons.total q).symm

theorem exec_all_or_nothing (h : Holder s.kernel i)
    (hread : forall ip readi, file = some (ip, readi) -> forall off n, (readi off n).length <= n)
    (hargs : forall arg, arg ∈ args -> arg.length < 2 ^ 31) {res : Option Nat}
    (hrun : s.kexec i path file args = .ok (s', res)) :
    (res = none -> ExecUndone s s' file ∧ Intact s s' i) ∧
      forall argc, res = some argc -> ExecFreed s s' i := by
  constructor
  · rintro rfl
    have hun := (kexec_run hrun).undone (h.good.mono fun _ => Nat.zero_le _) hread hargs
    exact ⟨hun, hun.intact h⟩
  · rintro argc rfl
    exact (kexec_run hrun).freed h hread hargs

end

/-!
## A file and a machine
-/

def readFile (contents : List UInt8) : Readi := fun off n =>
  if off > contents.length ∨ off + n >= 2 ^ 32 then
    []
  else
    (contents.drop off).take n

theorem readFile_delivers (contents : List UInt8) : Delivers contents (readFile contents) := by
  intro off n
  unfold readFile
  split
  · exact List.nil_prefix
  · exact List.prefix_rfl

def bareElf : List UInt8 :=
  [0x7f, 0x45, 0x4c, 0x46] ++ List.replicate 60 0

/-- Twelve pages are enough for the old image and the new one, and eleven are not. -/
theorem exec_all_or_nothing_bare : exists s s' t t' : Machine,
    Holder s.kernel 0 ∧ s.kexec 0 [] (some (7, readFile bareElf)) [[97]] = .ok (s', some 1) ∧
      ExecFreed s s' 0 ∧ Holder t.kernel 0 ∧
      t.kexec 0 [] (some (7, readFile bareElf)) [[97]] = .ok (t', none) ∧
      ExecUndone t t' (some (7, readFile bareElf)) ∧ Intact t t' 0 := by
  have hcheck : passes (userinit (tightBoot 12 (by decide)).kernel) (fun k =>
      passes (userinit (tightBoot 11 (by decide)).kernel) fun l =>
        passes (k.machine.kexec 0 [] (some (7, readFile bareElf)) [[97]]) fun a =>
          passes (l.machine.kexec 0 [] (some (7, readFile bareElf)) [[97]]) fun b =>
            decide (a.2 = some 1 ∧ b.2 = none ∧ (k.proc 0).state ≠ .unused ∧
              (l.proc 0).state ≠ .unused)) = true := by
    decide +kernel
  obtain ⟨k, hk, hcheck⟩ := passes_eq_true.mp hcheck
  obtain ⟨l, hl, hcheck⟩ := passes_eq_true.mp hcheck
  obtain ⟨⟨s', _⟩, hdone, hcheck⟩ := passes_eq_true.mp hcheck
  obtain ⟨⟨t', _⟩, hfail, hcheck⟩ := passes_eq_true.mp hcheck
  rcases of_decide_eq_true hcheck with ⟨rfl, rfl, hlive, hlive'⟩
  have hcaller := Kernel.machine_caller (.init hk) (by decide) hlive
  have hcaller' := Kernel.machine_caller (.init hl) (by decide) hlive'
  have hread : forall ip readi, some (7, readFile bareElf) = some (ip, readi) ->
      forall off n, (readi off n).length <= n := by
    rintro ip readi ⟨⟩
    exact (readFile_delivers bareElf).length_le
  have hargs : forall arg, arg ∈ [[(97 : UInt8)]] -> arg.length < 2 ^ 31 := by
    decide
  have hnew := exec_all_or_nothing hcaller.toHolder hread hargs hdone
  have hold := exec_all_or_nothing hcaller'.toHolder hread hargs hfail
  exact ⟨k.machine, s', l.machine, t', hcaller.toHolder, hdone, hnew.2 1 rfl, hcaller'.toHolder,
    hfail, hold.1 rfl⟩

end Process
end Xv6
