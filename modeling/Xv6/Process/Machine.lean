import Xv6.Lib.Transition
import Xv6.Process.Children

/-!
# Runs of the kernel

Any number of processes take steps in any order.  A step is a system call, a page
fault, a copy between kernel and user memory, or one stage of `sys_exec`.
-/

namespace Xv6
namespace Process

open Lib Vm

/-- Memory when the first process is created.  `kept` are the pages of the kernel's own
page table, the kernel stacks and the disk queues; all other pages up to `PHYSTOP` are
free. -/
structure Boot where
  kend : Page
  trampoline : Page
  kept : List Page
  free : List Page
  entry : Page -> Nat -> Pte
  pipe : Page -> Pipe
  ram : KERNBASE / PGSIZE <= kend
  once : forall q, kept.count q + free.count q =
    if kend <= q ∧ q < PHYSTOP / PGSIZE then 1 else 0

def Boot.kernel (b : Boot) : Kernel :=
  { kmem := { kend := b.kend, free := b.free, entry := b.entry }
    trampoline := b.trampoline
    proc := fun _ =>
      { state := .unused
        parent := none
        trapframe := 0
        pagetable := 0
        sz := 0
        ofile := fun _ => none
        argv := [] }
    initproc := 0
    first := true
    file := fun _ => { type := .none, ref := 0, writable := false, pipe := 0 }
    pipe := b.pipe }

def Boot.reserve (b : Boot) : Reserve :=
  { kend := b.kend, pages := b.kept }

inductive Label where
  | forkret (file : Option Readi)
  | fork (i : Nat)
  | sbrk (i : Nat) (n : Int) (eager : Bool)
  | fault (i va : Nat)
  | copyin (i va len : Nat)
  | copyout (i va len : Nat)
  | execArg (i : Nat)
  | execBad (i : Nat)
  | exec (i : Nat) (file : Option Readi) (args : List Nat)
  | pipe (i addr : Nat)
  | close (i fd : Nat)
  | dup (i fd : Nat)
  | openFile (i : Nat) (device writable : Bool)
  | exit (i : Nat)
  | wait (i addr : Nat)

def step (s : Kernel) : Label -> Except Panic Kernel
  | .forkret file => forkret s s.initproc file
  | .fork i => (kfork s i).map Prod.fst
  | .sbrk i n eager => (sysSbrk s i n eager).map Prod.fst
  | .fault i va => usertrapFault s i va
  | .copyin i va len =>
    (copyin s.kmem (s.myproc i) (s.proc i).pagetable va len).map
      (fun res => { s with kmem := res.1 })
  | .copyout i va len =>
    (copyout s.kmem (s.myproc i) (s.proc i).pagetable va len).map
      (fun res => { s with kmem := res.1 })
  | .execArg i => sysExecArg s i
  | .execBad i => sysExecBad s i
  | .exec i file args => (sysExec s i file args).map Prod.fst
  | .pipe i addr => sysPipe s i addr
  | .close i fd => sysClose s i fd
  | .dup i fd => sysDup s i fd
  | .openFile i device writable => sysOpen s i device writable
  | .exit i => kexit s i
  | .wait i addr => (kwait s i addr).map Prod.fst

/-- Process `i` runs user code or, with arguments in `argv`, is inside `sys_exec`. -/
def Runs (s : Kernel) (i : Nat) : Prop :=
  s.first = false ∧ i < NPROC ∧ (s.proc i).state = .runnable

def Enabled (s : Kernel) : Label -> Prop
  | .forkret _ => s.first = true
  | .sbrk i n _ => Runs s i ∧ (s.proc i).argv = [] ∧ -(2 ^ 31) <= n ∧ n < 2 ^ 31
  | .copyin i _ _ => Runs s i
  | .execArg i => Runs s i
  | .execBad i => Runs s i
  | .exec i _ args => Runs s i ∧ args.length = (s.proc i).argv.length ∧
      forall len, len ∈ args -> len < PGSIZE
  | .fork i | .fault i _ | .copyout i _ _ | .pipe i _ | .close i _ | .dup i _
  | .openFile i _ _ | .exit i | .wait i _ => Runs s i ∧ (s.proc i).argv = []

def system (b : Boot) : System Kernel Label :=
  { init := fun s => userinit b.kernel = .ok s
    step := fun s l s' => Enabled s l ∧ step s l = .ok s' }

/-- Every growing `sbrk` stays below the trapframe. -/
def Fits (s : Kernel) : Label -> Prop
  | .sbrk i n eager => SbrkFits s i n eager
  | _ => True

instance decidableRuns (s : Kernel) (i : Nat) : Decidable (Runs s i) :=
  inferInstanceAs (Decidable (_ ∧ _ ∧ _))

instance (s : Kernel) (i : Nat) (n : Int) (eager : Bool) : Decidable (SbrkFits s i n eager) :=
  inferInstanceAs (Decidable (_ -> _))

instance decidableEnabled (s : Kernel) (l : Label) : Decidable (Enabled s l) := by
  cases l <;> unfold Enabled <;> infer_instance

instance decidableFits (s : Kernel) (l : Label) : Decidable (Fits s l) := by
  cases l <;> unfold Fits <;> infer_instance

def exec (s : Kernel) (l : Label) : Option Kernel :=
  if Enabled s l then (step s l).toOption else none

theorem exec_step {b : Boot} {s s' : Kernel} {l : Label} (h : exec s l = some s') :
    (system b).step s l s' := by
  unfold exec at h
  split at h
  · next hen =>
      refine ⟨hen, ?_⟩
      cases hrun : step s l with
      | error e =>
        rw [hrun] at h
        cases h
      | ok s1 =>
        rw [hrun] at h
        cases h
        rfl
  · cases h

/-!
## The first process
-/

theorem Boot.pipeUse_eq (b : Boot) (q : Page) : pipeUse b.kernel.file q = 0 := by
  have hends : forall w, ends b.kernel.file w q = 0 := by
    intro w
    apply Finset.sum_eq_zero
    intro f _
    exact if_neg (fun h => Nat.lt_irrefl 0 h.left)
  unfold pipeUse
  rw [hends false, hends true]
  rfl

theorem Boot.owned (b : Boot) :
    Owned b.kend b.kernel.kmem b.kernel.trampoline b.kernel.proc
      (fun q => pipeUse b.kernel.file q + b.kept.count q) := by
  have hmem : forall m i q, memUse m (b.kernel.proc i) q = 0 := fun _ _ _ => rfl
  refine { ram := b.ram, kend_eq := rfl, total := fun q => ?_, wf := fun i _ => ?_ }
  · rw [Finset.sum_eq_zero (fun i _ => hmem _ i q), b.pipeUse_eq q, Nat.zero_add, Nat.zero_add]
    exact b.once q
  · exact
      { idle := fun _ =>
          { parent_eq := rfl
            trapframe_eq := rfl
            pagetable_eq := rfl
            size_eq := rfl
            argv_eq := rfl }
        live := fun h => absurd rfl h }

theorem Boot.files (b : Boot) :
    Files b.kernel.proc b.kernel.file b.kernel.pipe (fun _ => 0) := by
  refine
    { refs := fun f _ => ?_
      fds := fun i _ fd _ f h => by cases h
      closed := fun f _ _ => rfl
      flags := fun q hq => absurd (b.pipeUse_eq q) hq }
  have hzero : refCount b.kernel.proc f = 0 := by
    apply Finset.sum_eq_zero
    intro i _
    apply Finset.sum_eq_zero
    intro fd _
    exact if_neg (fun h => by cases h)
  rw [hzero]
  rfl

theorem userinit_sound (b : Boot) {s : Kernel} (h : userinit b.kernel = .ok s) :
    Sound b.reserve (fun _ => 0) s ∧ s.first = true := by
  unfold userinit at h
  rcases allocproc_spec (Owned.spare (s := b.kernel) b.owned) with ⟨s1, res, hrun, _, hsome⟩
  rw [hrun, ok_bind] at h
  cases res with
  | none => cases h
  | some i =>
    have hf := hsome i rfl
    have hlive := hf.live
    have heq : s = { b.kernel with kmem := s1.kmem, initproc := i }.setProc i
        { s1.proc i with state := .runnable } := by
      cases h
      conv_lhs => rw [hf.eq]
      simp [Kernel.setProc]
    rw [show s1.trampoline = b.kernel.trampoline by rw [hf.eq]; rfl] at hlive
    have hofile : ({ s1.proc i with state := .runnable } : Proc).ofile =
        (b.kernel.proc i).ofile := by
      rw [hf.proc_eq]
    have hcons : Conserve b.kernel.kmem s1.kmem (memUse b.kernel.kmem (b.kernel.proc i))
        (memUse s1.kmem { s1.proc i with state := .runnable }) := hf.conserve
    rw [heq]
    refine ⟨?_, rfl⟩
    refine
      { owned := b.owned.update hf.lt hcons
          { idle := fun hu => by cases hu
            live := fun _ =>
              { trapframe_ne := hlive.trapframe_ne
                pagetable_ne := hlive.pagetable_ne
                size_le := hlive.size_le
                space := hlive.space } }
        files := b.files.setSlot hf.lt hofile
        quiet := fun j hj hstate => ?_
        init_lt := hf.lt
        init_runs := ?_ }
    · by_cases hji : j = i
      · rw [hji, setProc_proc] at hstate
        rcases hstate with hu | hz
        · cases hu
        · cases hz
      · have hother : ({ b.kernel with kmem := s1.kmem, initproc := i }.setProc i
            { s1.proc i with state := .runnable }).proc j = b.kernel.proc j :=
          Function.update_of_ne hji ..
        rw [hother]
        exact ⟨rfl, fun _ _ => rfl⟩
    · exact congrArg Proc.state (setProc_proc _ i { s1.proc i with state := .runnable })

/-!
## Every step keeps the invariant

The only panics left are those of `/init`: when it exits, or cannot be executed.
-/

def KeepsSound (kept : Reserve) (r : Except Panic Kernel) : Prop :=
  (exists s', r = .ok s' ∧ Sound kept (fun _ => 0) s') ∨ r = .error .initExiting ∨
    r = .error .exec

theorem KeepsSound.error_cases {kept : Reserve} {r : Except Panic Kernel} {e : Panic}
    (h : KeepsSound kept r) (he : r = .error e) : e = .initExiting ∨ e = .exec := by
  rcases h with ⟨s', hok, _⟩ | hexit | hexec
  · rw [he] at hok
    cases hok
  · rw [he] at hexit
    cases hexit
    exact Or.inl rfl
  · rw [he] at hexec
    cases hexec
    exact Or.inr rfl

section Step

variable {kept : Reserve} {s : Kernel} {i : Nat}

theorem Runs.active (h : Runs s i) : Active s i := by
  unfold Active
  rw [h.right.right]
  decide

theorem kexit_keeps (h : Sound kept (fun _ => 0) s) (hi : i < NPROC) (ha : Active s i)
    (hargv : (s.proc i).argv = []) : KeepsSound kept (kexit s i) := by
  by_cases hinit : i = s.initproc
  · right
    left
    exact if_pos hinit
  · rcases kexit_spec h hi ha hargv hinit with ⟨s', hrun, hsound, _⟩
    exact Or.inl ⟨s', hrun, hsound⟩

/-- A step of process `i` that only works on its own memory, or ends the process. -/
def Label.Own (i : Nat) : Label -> Prop
  | .sbrk j _ _ | .fault j _ | .copyin j _ _ | .copyout j _ _ | .execArg j | .execBad j
  | .exec j _ _ | .exit j => j = i
  | _ => False

instance (i : Nat) (l : Label) : Decidable (l.Own i) := by
  cases l <;> unfold Label.Own <;> infer_instance

theorem Enabled.runs {l : Label} (hen : Enabled s l) (hown : l.Own i) : Runs s i := by
  cases l with
  | sbrk | fault | copyout | exec | exit =>
    cases hown
    exact hen.left
  | copyin | execArg | execBad =>
    cases hown
    exact hen
  | forkret | fork | pipe | close | dup | openFile | wait => cases hown

def OwnEffect (s : Kernel) (i : Nat) (r : Except Panic Kernel) : Prop :=
  (exists s', r = .ok s' ∧ Private s s' i) ∨
    exists s', Private s s' i ∧ (s'.proc i).argv = [] ∧ r = kexit s' i

theorem own_step (h : Sound kept (fun _ => 0) s) {l : Label} (hown : l.Own i)
    (hen : Enabled s l) (hfits : Fits s l) : OwnEffect s i (step s l) := by
  have hr := hen.runs hown
  have hlive := h.live hr.right.left hr.active
  have hgood := h.good hr.right.left
  cases l with
  | sbrk j n eager =>
    cases hown
    rcases sysSbrk_private hlive hgood hfits with ⟨s', done, hrun, hp⟩
    exact Or.inl ⟨s', by rw [step, hrun]; rfl, hp⟩
  | fault j va =>
    cases hown
    rcases vmfault_private hlive hgood va with ⟨m', res, hrun, hp⟩
    unfold OwnEffect
    simp only [step, usertrapFault, hrun, ok_bind]
    cases res with
    | some pa => exact Or.inl ⟨_, rfl, hp⟩
    | none => exact Or.inr ⟨_, hp, hen.right, rfl⟩
  | copyin j va len =>
    cases hown
    rcases copyin_private hlive hgood va len with ⟨m', done, hrun, hp⟩
    exact Or.inl ⟨_, by rw [step, hrun]; rfl, hp⟩
  | copyout j va len =>
    cases hown
    rcases copyout_private hlive hgood va len with ⟨m', done, hrun, hp⟩
    exact Or.inl ⟨_, by rw [step, hrun]; rfl, hp⟩
  | execArg j =>
    cases hown
    exact Or.inl (sysExecArg_private hlive hgood)
  | execBad j =>
    cases hown
    exact Or.inl (sysExecBad_private hlive hgood)
  | exec j file args =>
    cases hown
    rcases sysExec_private hlive hgood h.owned.ram_le file hen.right.right with
      ⟨s', done, hrun, hp⟩
    exact Or.inl ⟨s', by rw [step, hrun]; rfl, hp⟩
  | exit j =>
    cases hown
    exact Or.inr ⟨s, Private.refl hlive, hen.right, rfl⟩
  | forkret | fork | pipe | close | dup | openFile | wait => cases hown

theorem own_keeps (h : Sound kept (fun _ => 0) s) {l : Label} (hown : l.Own i)
    (hen : Enabled s l) (hfits : Fits s l) : KeepsSound kept (step s l) := by
  have hr := hen.runs hown
  rcases own_step h hown hen hfits with ⟨s', hrun, hp⟩ | ⟨s', hp, hargv, hrun⟩
  · exact Or.inl ⟨s', hrun, h.private hr.right.left hr.active hp⟩
  · rw [hrun]
    exact kexit_keeps (h.private hr.right.left hr.active hp) hr.right.left
      (hp.active hr.active) hargv

theorem forkret_keeps (h : Sound kept (fun _ => 0) s) (file : Option Readi) :
    KeepsSound kept (forkret s s.initproc file) := by
  have ha : Active s s.initproc := by
    unfold Active
    rw [h.init_runs]
    decide
  have h0 : Sound kept (fun _ => 0) { s with first := false } :=
    { owned := h.owned
      files := h.files
      quiet := h.quiet
      init_lt := h.init_lt
      init_runs := h.init_runs }
  rcases sysExec_private (h0.live h.init_lt ha) (h0.good h.init_lt) h0.owned.ram_le file
    (show forall len, len ∈ [5] -> len < PGSIZE by decide) with ⟨s', done, hrun, hp⟩
  have h1 := h0.private h.init_lt ha hp
  unfold forkret
  simp only [hrun, ok_bind]
  cases done with
  | true => exact Or.inl ⟨s', rfl, h1⟩
  | false => exact Or.inr (Or.inr rfl)

theorem step_keeps (h : Sound kept (fun _ => 0) s) {l : Label} (hen : Enabled s l)
    (hfits : Fits s l) : KeepsSound kept (step s l) := by
  cases l with
  | forkret file => exact forkret_keeps h file
  | fork i =>
    have hr := hen.left
    rcases kfork_spec h hr.right.left hr.active with ⟨s', res, hrun, hsound, _⟩
    exact Or.inl ⟨s', by rw [step, hrun]; rfl, hsound⟩
  | sbrk i n eager => exact own_keeps h (i := i) rfl hen hfits
  | fault i va => exact own_keeps h (i := i) rfl hen hfits
  | copyin i va len => exact own_keeps h (i := i) rfl hen hfits
  | copyout i va len => exact own_keeps h (i := i) rfl hen hfits
  | execArg i => exact own_keeps h (i := i) rfl hen hfits
  | execBad i => exact own_keeps h (i := i) rfl hen hfits
  | exec i file args => exact own_keeps h (i := i) rfl hen hfits
  | exit i => exact own_keeps h (i := i) rfl hen hfits
  | pipe i addr => exact Or.inl (sysPipe_spec h hen.left.right.left hen.left.active addr)
  | close i fd => exact Or.inl (sysClose_spec h hen.left.right.left hen.left.active fd)
  | dup i fd => exact Or.inl (sysDup_spec h hen.left.right.left hen.left.active fd)
  | openFile i device writable =>
    exact Or.inl (sysOpen_spec h hen.left.right.left hen.left.active device writable)
  | wait i addr =>
    have hr := hen.left
    rcases kwait_spec h hr.right.left hr.active addr with ⟨s', res, hrun, hsound, _⟩
    exact Or.inl ⟨s', by rw [step, hrun]; rfl, hsound⟩

theorem reachable_sound {b : Boot} (h : (system b).ReachableVia Fits s) :
    Sound b.reserve (fun _ => 0) s := by
  apply h.invariant
  · intro s hinit
    exact (userinit_sound b hinit).left
  · intro s l s' hsound hfits hstep
    rcases step_keeps hsound hstep.left hfits with ⟨s1, hrun, h1⟩ | hexit | hexec
    · rw [hstep.right] at hrun
      cases hrun
      exact h1
    · rw [hstep.right] at hexit
      cases hexit
    · rw [hstep.right] at hexec
      cases hexec

end Step

end Process
end Xv6
