import Xv6.Process.Lifecycle

/-!
# The file table and pipes

Every file is referenced as often as there are descriptors for it.  While a system
call runs it may hold references of its own, counted by `pend`.  A pipe occupies its
page as long as one of its ends is open.
-/

namespace Xv6
namespace Process

open Lib Vm Function

def fdCount (ofile : Nat -> Option Nat) (f : Nat) : Nat :=
  ∑ fd ∈ Finset.range NOFILE, if ofile fd = some f then 1 else 0

def refCount (proc : Nat -> Proc) (f : Nat) : Nat :=
  ∑ i ∈ Finset.range NPROC, fdCount (proc i).ofile f

/-- The file is an open end, for writing or for reading, of the pipe in page `q`. -/
def File.IsEnd (x : File) (writable : Bool) (q : Page) : Prop :=
  0 < x.ref ∧ x.type = .pipe ∧ x.writable = writable ∧ x.pipe = q

instance (x : File) (writable : Bool) (q : Page) : Decidable (x.IsEnd writable q) :=
  inferInstanceAs (Decidable (_ ∧ _))

def ends (file : Nat -> File) (writable : Bool) (q : Page) : Nat :=
  ∑ f ∈ Finset.range NFILE, if (file f).IsEnd writable q then 1 else 0

def pipeUse (file : Nat -> File) (q : Page) : Nat :=
  max (ends file false q) (ends file true q)

structure Files (proc : Nat -> Proc) (file : Nat -> File) (pipe : Page -> Pipe)
    (pend : Nat -> Nat) : Prop where
  refs : forall f, f < NFILE -> (file f).ref = refCount proc f + pend f
  fds : forall i, i < NPROC -> forall fd, fd < NOFILE -> forall f,
    (proc i).ofile fd = some f -> f < NFILE
  closed : forall f, f < NFILE -> (file f).ref = 0 -> (file f).type = .none
  flags : forall q, pipeUse file q ≠ 0 ->
    (pipe q).readopen = decide (ends file false q ≠ 0) ∧
      (pipe q).writeopen = decide (ends file true q ≠ 0)

/-!
## Counting
-/

theorem ends_update (file : Nat -> File) {f : Nat} (hf : f < NFILE) (x : File)
    (writable : Bool) (q : Page) :
    ends (update file f x) writable q +
        (if (file f).IsEnd writable q then 1 else 0) =
      ends file writable q + if x.IsEnd writable q then 1 else 0 := by
  have hsum := sum_range_update hf
    (fun g => if (file g).IsEnd writable q then 1 else 0)
    (fun g => if (update file f x g).IsEnd writable q then 1 else 0)
    (fun g _ hne => by rw [update_of_ne hne])
  rw [update_self] at hsum
  exact hsum

theorem ends_congr (file : Nat -> File) {f : Nat} (hf : f < NFILE) {x : File}
    (h : forall w q, x.IsEnd w q <-> (file f).IsEnd w q) (writable : Bool) (q : Page) :
    ends (update file f x) writable q = ends file writable q := by
  have hsum := ends_update file hf x writable q
  rw [if_congr (h writable q) rfl rfl] at hsum
  omega

theorem pipeUse_congr {file file' : Nat -> File} {q : Page}
    (h : forall w, ends file' w q = ends file w q) : pipeUse file' q = pipeUse file q := by
  unfold pipeUse
  rw [h false, h true]

theorem fdCount_update (ofile : Nat -> Option Nat) {fd : Nat} (hfd : fd < NOFILE)
    (x : Option Nat) (f : Nat) :
    fdCount (update ofile fd x) f + (if ofile fd = some f then 1 else 0) =
      fdCount ofile f + if x = some f then 1 else 0 := by
  have hsum := sum_range_update hfd (fun k => if ofile k = some f then 1 else 0)
    (fun k => if update ofile fd x k = some f then 1 else 0)
    (fun k _ hne => by rw [update_of_ne hne])
  rw [update_self] at hsum
  exact hsum

theorem refCount_update (proc : Nat -> Proc) {i : Nat} (hi : i < NPROC) (p : Proc) (f : Nat) :
    refCount (update proc i p) f + fdCount (proc i).ofile f =
      refCount proc f + fdCount p.ofile f := by
  have hsum := sum_range_update hi (fun j => fdCount (proc j).ofile f)
    (fun j => fdCount (update proc i p j).ofile f)
    (fun j _ hne => by rw [update_of_ne hne])
  rw [update_self] at hsum
  exact hsum

theorem fdCount_pos {ofile : Nat -> Option Nat} {fd f : Nat} (hfd : fd < NOFILE)
    (h : ofile fd = some f) : 1 <= fdCount ofile f := by
  have hle := le_sum_range hfd (fun k => if ofile k = some f then 1 else 0)
  rw [if_pos h] at hle
  exact hle

theorem fdCount_le_refCount (proc : Nat -> Proc) {i : Nat} (hi : i < NPROC) (f : Nat) :
    fdCount (proc i).ofile f <= refCount proc f :=
  le_sum_range hi (fun j => fdCount (proc j).ofile f)

/-!
## The invariant of the kernel
-/

/-- What the kernel takes for itself at boot: its image up to `kend`, and some pages. -/
structure Reserve where
  kend : Page
  pages : List Page

structure Sound (kept : Reserve) (pend : Nat -> Nat) (s : Kernel) : Prop where
  owned : Owned kept.kend s.kmem s.trampoline s.proc
    (fun q => pipeUse s.file q + kept.pages.count q)
  files : Files s.proc s.file s.pipe pend
  quiet : forall i, i < NPROC -> (s.proc i).state = .unused ∨ (s.proc i).state = .zombie ->
    (s.proc i).argv = [] ∧ forall fd, fd < NOFILE -> (s.proc i).ofile fd = none
  init_lt : s.initproc < NPROC
  init_runs : (s.proc s.initproc).state = .runnable

section Sound

variable {kept : Reserve} {pend : Nat -> Nat} {s : Kernel} {i : Nat}

theorem setProc_proc (s : Kernel) (i : Nat) (p : Proc) : (s.setProc i p).proc i = p :=
  update_self ..

theorem Owned.setOfile {lo : Page} {m : Kmem} {trampoline : Page} {proc : Nat -> Proc}
    {extra : Page -> Nat}
    (h : Owned lo m trampoline proc extra) (hi : i < NPROC) (o : Nat -> Option Nat) :
    Owned lo m trampoline (Function.update proc i { proc i with ofile := o }) extra := by
  have hcons : Conserve m m (memUse m (proc i)) (memUse m { proc i with ofile := o }) :=
    Conserve.refl m _
  apply h.update hi hcons
  have hwf := h.wf i hi
  constructor
  · intro hunused
    have hidle := hwf.idle hunused
    exact
      { parent_eq := hidle.parent_eq
        trapframe_eq := hidle.trapframe_eq
        pagetable_eq := hidle.pagetable_eq
        size_eq := hidle.size_eq
        argv_eq := hidle.argv_eq }
  · intro hstate
    have hlive := hwf.live hstate
    exact
      { trapframe_ne := hlive.trapframe_ne
        pagetable_ne := hlive.pagetable_ne
        size_le := hlive.size_le
        space := hlive.space }

theorem Sound.setDescriptor (h : Sound kept pend s) (hi : i < NPROC)
    (hactive : (s.proc i).state ≠ .unused ∧ (s.proc i).state ≠ .zombie) {fd : Nat}
    (hfd : fd < NOFILE) {x : Option Nat} (hx : forall f, x = some f -> f < NFILE)
    {pend' : Nat -> Nat} (hpend : forall f, pend' f + (if x = some f then 1 else 0) =
      pend f + if (s.proc i).ofile fd = some f then 1 else 0) :
    Sound kept pend' (setFd s i fd x) := by
  have hstates : forall j, ((setFd s i fd x).proc j).state = (s.proc j).state := by
    intro j
    by_cases hij : j = i
    · rw [hij]
      unfold setFd
      rw [setProc_proc]
    · exact congrArg Proc.state (update_of_ne hij ..)
  refine
    { owned := h.owned.setOfile hi _
      files := ?_
      quiet := ?_
      init_lt := h.init_lt
      init_runs := by rw [hstates]; exact h.init_runs }
  · refine
      { refs := ?_
        fds := ?_
        closed := h.files.closed
        flags := h.files.flags }
    · intro f hf
      have href := refCount_update s.proc hi
        { s.proc i with ofile := update (s.proc i).ofile fd x } f
      have hcount := fdCount_update (s.proc i).ofile hfd x f
      have hp := hpend f
      have hold := h.files.refs f hf
      dsimp only at href
      change (s.file f).ref = refCount (update s.proc i
        { s.proc i with ofile := update (s.proc i).ofile fd x }) f + pend' f
      dsimp only
      omega
    · intro j hj k hk f hof
      by_cases hij : j = i
      · subst hij
        rw [show ((setFd s j fd x).proc j).ofile = update (s.proc j).ofile fd x
          from congrArg Proc.ofile (setProc_proc s j _)] at hof
        by_cases hkfd : k = fd
        · rw [hkfd, update_self] at hof
          exact hx f hof
        · rw [update_of_ne hkfd] at hof
          exact h.files.fds j hj k hk f hof
      · rw [show (setFd s i fd x).proc j = s.proc j from update_of_ne hij ..]
          at hof
        exact h.files.fds j hj k hk f hof
  · intro j hj hidle
    rw [hstates j] at hidle
    have hij : j ≠ i := by
      intro heq
      rw [heq] at hidle
      rcases hidle with hu | hz
      · exact hactive.left hu
      · exact hactive.right hz
    rw [show (setFd s i fd x).proc j = s.proc j from update_of_ne hij ..]
    exact h.quiet j hj hidle

variable {f : Nat}

theorem Sound.setFile (h : Sound kept pend s) (hf : f < NFILE) {x : File}
    (hend : forall w q, x.IsEnd w q <-> (s.file f).IsEnd w q)
    (hclosed : x.ref = 0 -> x.type = .none) {pend' : Nat -> Nat}
    (hpend : x.ref + pend f = (s.file f).ref + pend' f)
    (hother : forall g, g ≠ f -> pend' g = pend g) : Sound kept pend' (s.setFile f x) := by
  have hends := ends_congr s.file hf hend
  have huse : forall q, pipeUse (update s.file f x) q = pipeUse s.file q :=
    fun q => pipeUse_congr (fun w => hends w q)
  refine
    { owned := ?_
      files := ?_
      quiet := h.quiet
      init_lt := h.init_lt
      init_runs := h.init_runs }
  · apply h.owned.update_extra (Conserve.refl s.kmem (fun _ => 0))
      (fun q => (Nat.zero_add _).symm)
    intro q
    change pipeUse (update s.file f x) q + _ = _
    rw [huse q, Nat.zero_add]
  · refine { refs := ?_, fds := h.files.fds, closed := ?_, flags := ?_ }
    · intro g hg
      have hold := h.files.refs g hg
      change (update s.file f x g).ref = _
      by_cases hgf : g = f
      · subst hgf
        rw [update_self]
        change x.ref = refCount s.proc g + pend' g
        omega
      · rw [update_of_ne hgf, hother g hgf]
        exact hold
    · intro g hg
      change (update s.file f x g).ref = 0 -> (update s.file f x g).type = _
      by_cases hgf : g = f
      · rw [hgf, update_self]
        exact hclosed
      · rw [update_of_ne hgf]
        exact h.files.closed g hg
    · intro q
      change pipeUse (update s.file f x) q ≠ 0 ->
        (s.pipe q).readopen = decide (ends (update s.file f x) false q ≠ 0) ∧
          (s.pipe q).writeopen = decide (ends (update s.file f x) true q ≠ 0)
      rw [huse q, hends false q, hends true q]
      exact h.files.flags q

def hold (pend : Nat -> Nat) (f : Nat) (g : Nat) : Nat :=
  pend g + one f g

theorem hold_self (pend : Nat -> Nat) (f : Nat) : hold pend f f = pend f + 1 := by
  unfold hold
  rw [one_self]

theorem hold_of_ne (pend : Nat -> Nat) {g : Nat} (h : g ≠ f) : hold pend f g = pend g := by
  unfold hold
  rw [one_of_ne (fun heq => h heq.symm), Nat.add_zero]

theorem hold_comm (pend : Nat -> Nat) (f g : Nat) :
    hold (hold pend f) g = hold (hold pend g) f := by
  funext k
  unfold hold
  omega

theorem filealloc_spec (h : Sound kept pend s) :
    filealloc s = (s, none) ∨ exists f, f < NFILE ∧ (s.file f).ref = 0 ∧
      (s.file f).type = .none ∧
      filealloc s = (s.setFile f { s.file f with ref := 1 }, some f) ∧
      Sound kept (hold pend f) (s.setFile f { s.file f with ref := 1 }) := by
  unfold filealloc
  cases hfind : (List.range NFILE).find? (fun f => decide ((s.file f).ref = 0)) with
  | none => exact Or.inl rfl
  | some f =>
    rcases find_range hfind with ⟨hf, hfree⟩
    replace hfree : (s.file f).ref = 0 := of_decide_eq_true hfree
    have htype := h.files.closed f hf hfree
    refine Or.inr ⟨f, hf, hfree, htype, rfl, h.setFile hf ?_ (fun h => by cases h) ?_
      (fun g hne => hold_of_ne pend hne)⟩
    · intro w q
      constructor
      · intro hend
        rw [hend.right.left] at htype
        cases htype
      · intro hend
        rw [hend.right.left] at htype
        cases htype
    · rw [hold_self, hfree]
      dsimp only
      omega

theorem filedup_spec (h : Sound kept pend s) (hf : f < NFILE) (href : 0 < (s.file f).ref) :
    filedup s f = .ok (s.setFile f { s.file f with ref := (s.file f).ref + 1 }) ∧
      Sound kept (hold pend f) (s.setFile f { s.file f with ref := (s.file f).ref + 1 }) := by
  refine ⟨if_neg (by omega), h.setFile hf ?_ (fun h => by cases h) ?_
    (fun g hne => hold_of_ne pend hne)⟩
  · intro w q
    unfold File.IsEnd
    dsimp only
    constructor
    · intro hend
      exact ⟨href, hend.right⟩
    · intro hend
      exact ⟨Nat.succ_pos _, hend.right⟩
  · rw [hold_self]
    dsimp only
    omega

/-- A function of `file.c` or `pipe.c` leaves the processes alone. -/
def FilesOnly (s s' : Kernel) : Prop :=
  s' = { s with kmem := s'.kmem, file := s'.file, pipe := s'.pipe }

theorem FilesOnly.trans {s' s'' : Kernel} (h : FilesOnly s s') (h' : FilesOnly s' s'') :
    FilesOnly s s'' := by
  unfold FilesOnly at *
  rw [h'] at *
  rw [h]

theorem filesOnly_setFile (s : Kernel) (f : Nat) (x : File) : FilesOnly s (s.setFile f x) :=
  rfl

theorem FilesOnly.proc_eq {s' : Kernel} (h : FilesOnly s s') : s'.proc = s.proc := by
  rw [h]

/-!
## Closing

The last reference to an end of a pipe clears its flag, and the page goes when both
flags are clear.
-/

theorem Sound.pipeUse_le (h : Sound kept pend s) (q : Page) : pipeUse s.file q <= 1 := by
  have hle := h.owned.good.le_one q
  omega

theorem ends_close (file : Nat -> File) (hf : f < NFILE) (w : Bool) (q : Page) :
    ends (update file f { file f with ref := 0, type := .none }) w q +
      (if (file f).IsEnd w q then 1 else 0) = ends file w q := by
  rw [ends_update file hf _ w q, if_neg (fun h => Nat.lt_irrefl 0 h.left), Nat.add_zero]

theorem pipe_flags_close (h : Sound kept pend s) (hf : f < NFILE)
    (hend : (s.file f).IsEnd (s.file f).writable (s.file f).pipe) {file' : Nat -> File}
    (hfile : file' = update s.file f { s.file f with ref := 0, type := .none })
    {x : Pipe} (hx : x =
      if (s.file f).writable then { s.pipe (s.file f).pipe with writeopen := false }
      else { s.pipe (s.file f).pipe with readopen := false }) :
    x.readopen = decide (ends file' false (s.file f).pipe ≠ 0) ∧
      x.writeopen = decide (ends file' true (s.file f).pipe ≠ 0) := by
  have hclose := fun w => ends_close s.file hf w (s.file f).pipe
  rw [← hfile] at hclose
  have hle := h.pipeUse_le (s.file f).pipe
  have hmax : pipeUse s.file (s.file f).pipe =
    max (ends s.file false (s.file f).pipe) (ends s.file true (s.file f).pipe) := rfl
  have hfalse := hclose false
  have htrue := hclose true
  cases hw : (s.file f).writable with
  | true =>
    rw [hw] at hend hx
    rw [if_pos hend] at htrue
    rw [if_neg (fun hother => by rw [hother.right.right.left] at hw; cases hw)] at hfalse
    have hflags := h.files.flags (s.file f).pipe (by omega)
    rw [hx, if_pos rfl, hflags.left]
    refine ⟨by rw [← hfalse, Nat.add_zero], ?_⟩
    rw [decide_eq_false (by omega)]
  | false =>
    rw [hw] at hend hx
    rw [if_pos hend] at hfalse
    rw [if_neg (fun hother => by rw [hother.right.right.left] at hw; cases hw)] at htrue
    have hflags := h.files.flags (s.file f).pipe (by omega)
    rw [hx, if_neg Bool.false_ne_true, hflags.right]
    refine ⟨?_, by rw [← htrue, Nat.add_zero]⟩
    rw [decide_eq_false (by omega)]

theorem pipeclose_spec (h : Sound kept (hold pend f) s) (hf : f < NFILE)
    (href : (s.file f).ref = 1) (htype : (s.file f).type = .pipe) :
    exists s', pipeclose (s.setFile f { s.file f with ref := 0, type := .none })
        (s.file f).pipe (s.file f).writable = .ok s' ∧
      Sound kept pend s' ∧ FilesOnly s s' := by
  have hend : (s.file f).IsEnd (s.file f).writable (s.file f).pipe :=
    ⟨by omega, htype, rfl, rfl⟩
  generalize hfile : update s.file f { s.file f with ref := 0, type := .none } = file'
  generalize hx : (if (s.file f).writable then
    { s.pipe (s.file f).pipe with writeopen := false }
    else { s.pipe (s.file f).pipe with readopen := false }) = x
  have hflags := pipe_flags_close h hf hend hfile.symm hx.symm
  have hclose := fun w q => ends_close s.file hf w q
  rw [hfile] at hclose
  have helse : forall w q, q ≠ (s.file f).pipe -> ends file' w q = ends s.file w q := by
    intro w q hne
    have hsum := hclose w q
    rw [if_neg (fun hother => hne hother.right.right.right.symm)] at hsum
    omega
  have hone : pipeUse s.file (s.file f).pipe = 1 := by
    have hle := h.pipeUse_le (s.file f).pipe
    have hsum := hclose (s.file f).writable (s.file f).pipe
    rw [if_pos hend] at hsum
    unfold pipeUse at hle ⊢
    cases hw : (s.file f).writable with
    | true =>
      rw [hw] at hsum
      omega
    | false =>
      rw [hw] at hsum
      omega
  have hfiles : Files s.proc file' (update s.pipe (s.file f).pipe x) pend := by
    refine { refs := ?_, fds := h.files.fds, closed := ?_, flags := ?_ }
    · intro g hg
      have hold := h.files.refs g hg
      rw [← hfile]
      by_cases hgf : g = f
      · subst hgf
        rw [hold_self] at hold
        rw [update_self]
        dsimp only
        omega
      · rw [update_of_ne hgf, hold, hold_of_ne pend hgf]
    · intro g hg
      rw [← hfile]
      by_cases hgf : g = f
      · rw [hgf, update_self]
        exact fun _ => rfl
      · rw [update_of_ne hgf]
        exact h.files.closed g hg
    · intro q hq
      by_cases hqf : q = (s.file f).pipe
      · rw [hqf, update_self]
        exact hflags
      · rw [pipeUse_congr (fun w => helse w q hqf)] at hq
        rw [update_of_ne hqf, helse false q hqf, helse true q hqf]
        exact h.files.flags q hq
  have hrest : forall q, q ≠ (s.file f).pipe -> pipeUse file' q = pipeUse s.file q :=
    fun q hne => pipeUse_congr (fun w => helse w q hne)
  have hrun : pipeclose (s.setFile f { s.file f with ref := 0, type := .none })
      (s.file f).pipe (s.file f).writable =
      if !x.readopen && !x.writeopen then
        (kfree s.kmem (s.file f).pipe).map (fun m => { s with
          kmem := m
          file := file'
          pipe := update s.pipe (s.file f).pipe x })
      else .ok { s with
        file := file'
        pipe := update s.pipe (s.file f).pipe x } := by
    unfold pipeclose Kernel.setFile
    dsimp only
    rw [hfile, hx]
    cases kfree s.kmem (s.file f).pipe <;> rfl
  rw [hrun, hflags.left, hflags.right]
  by_cases hgone : pipeUse file' (s.file f).pipe = 0
  · have hzero : ends file' false (s.file f).pipe = 0 ∧ ends file' true (s.file f).pipe = 0 := by
      unfold pipeUse at hgone
      omega
    have hsplit : forall q, pipeUse s.file q + kept.pages.count q =
        one (s.file f).pipe q + (pipeUse file' q + kept.pages.count q) := by
      intro q
      by_cases hq : q = (s.file f).pipe
      · rw [hq, one_self, hone, hgone]
        omega
      · rw [one_of_ne (fun heq => hq heq.symm), hrest q hq, Nat.zero_add]
    have hpage : Good s.kmem (fun q => 0 + one (s.file f).pipe q) := by
      apply h.owned.good.mono
      intro q
      rw [Nat.zero_add, hsplit q]
      omega
    rcases kfree_conserve hpage with ⟨m', hfree, hcons⟩
    have hcons' := hcons.congr (Y := one (s.file f).pipe) (fun q => (Nat.zero_add _).symm)
      (fun _ => rfl)
    refine ⟨{ s with
        kmem := m'
        file := file'
        pipe := update s.pipe (s.file f).pipe x }, ?_, ?_, rfl⟩
    · rw [hzero.left, hzero.right, hfree]
      rfl
    · exact
        { owned := h.owned.update_extra hcons' hsplit (fun q => (Nat.zero_add _).symm)
          files := hfiles
          quiet := h.quiet
          init_lt := h.init_lt
          init_runs := h.init_runs }
  · have hopen : ¬ ((!decide (ends file' false (s.file f).pipe ≠ 0) &&
        !decide (ends file' true (s.file f).pipe ≠ 0)) = true) := by
      unfold pipeUse at hgone
      simp only [Bool.and_eq_true, Bool.not_eq_true', decide_eq_false_iff_not, not_not]
      omega
    rw [if_neg hopen]
    refine ⟨_, rfl, ?_, rfl⟩
    refine
      { owned := ?_
        files := hfiles
        quiet := h.quiet
        init_lt := h.init_lt
        init_runs := h.init_runs }
    apply h.owned.update_extra (Conserve.refl s.kmem (fun _ => 0))
      (fun q => (Nat.zero_add _).symm)
    intro q
    rw [Nat.zero_add]
    by_cases hq : q = (s.file f).pipe
    · have hle : pipeUse file' (s.file f).pipe <= pipeUse s.file (s.file f).pipe := by
        have h1 := hclose false (s.file f).pipe
        have h2 := hclose true (s.file f).pipe
        unfold pipeUse
        omega
      rw [hq]
      dsimp only
      omega
    · dsimp only
      rw [hrest q hq]

theorem fileclose_spec (h : Sound kept (hold pend f) s) (hf : f < NFILE) :
    exists s', fileclose s f = .ok s' ∧ Sound kept pend s' ∧ FilesOnly s s' := by
  have hrefs := h.files.refs f hf
  rw [hold_self] at hrefs
  have hother : forall g, g ≠ f -> pend g = hold pend f g :=
    fun g hne => (hold_of_ne pend hne).symm
  unfold fileclose
  dsimp only
  rw [if_neg (by omega)]
  by_cases hmore : (s.file f).ref - 1 > 0
  · rw [if_pos hmore]
    refine ⟨_, rfl, h.setFile hf ?_ (fun hz => ?_) ?_ hother, rfl⟩
    · intro w q
      unfold File.IsEnd
      dsimp only
      constructor
      · intro hend
        exact ⟨by omega, hend.right⟩
      · intro hend
        exact ⟨hmore, hend.right⟩
    · dsimp only at hz
      omega
    · rw [hold_self]
      dsimp only
      omega
  · rw [if_neg hmore]
    have hone : (s.file f).ref = 1 := by omega
    by_cases htype : (s.file f).type = .pipe
    · rw [if_pos htype]
      exact pipeclose_spec h hf hone htype
    · rw [if_neg htype]
      refine ⟨_, rfl, h.setFile hf ?_ (fun _ => rfl) ?_ hother, rfl⟩
      · intro w q
        constructor
        · intro hend
          exact absurd hend.left (Nat.lt_irrefl 0)
        · intro hend
          exact absurd hend.right.left htype
      · rw [hold_self]
        dsimp only
        omega

/-!
## `pipealloc`
-/

theorem isEnd_pipe {x : File} (href : x.ref = 1) (pi : Page) (w w' : Bool) (q : Page) :
    (if ({ x with type := .pipe, writable := w, pipe := pi } : File).IsEnd w' q then 1 else 0) =
      if w = w' then one pi q else 0 := by
  unfold File.IsEnd one
  dsimp only
  by_cases hw : w = w' <;> by_cases hq : pi = q <;> simp [href, hw, hq]

theorem ends_makePipe {file : Nat -> File} {f0 f1 : Nat} (hf0 : f0 < NFILE) (hf1 : f1 < NFILE)
    (hne : f0 ≠ f1) (href0 : (file f0).ref = 1) (href1 : (file f1).ref = 1)
    (htype0 : (file f0).type = .none) (htype1 : (file f1).type = .none) (pi : Page) (w : Bool)
    (q : Page) :
    ends (update (update file f0
      { file f0 with type := .pipe, writable := false, pipe := pi }) f1
      { file f1 with type := .pipe, writable := true, pipe := pi }) w q =
      ends file w q + one pi q := by
  have hclosed : forall x : File, x.type = .none -> ¬ x.IsEnd w q := by
    intro x htype hend
    rw [hend.right.left] at htype
    cases htype
  have h0 := ends_update file hf0
    { file f0 with type := .pipe, writable := false, pipe := pi } w q
  have h1 := ends_update (update file f0
    { file f0 with type := .pipe, writable := false, pipe := pi }) hf1
    { file f1 with type := .pipe, writable := true, pipe := pi } w q
  rw [if_neg (hclosed _ htype0), isEnd_pipe href0] at h0
  rw [update_of_ne hne.symm, if_neg (hclosed _ htype1), isEnd_pipe href1] at h1
  cases w with
  | true =>
    rw [if_neg Bool.false_ne_true] at h0
    rw [if_pos rfl] at h1
    omega
  | false =>
    rw [if_pos rfl] at h0
    rw [if_neg (fun h => Bool.false_ne_true h.symm)] at h1
    omega

theorem Sound.makePipe {f0 f1 : Nat} (h : Sound kept pend s) (hf0 : f0 < NFILE)
    (hf1 : f1 < NFILE) (hne : f0 ≠ f1) (href0 : (s.file f0).ref = 1)
    (href1 : (s.file f1).ref = 1) (htype0 : (s.file f0).type = .none)
    (htype1 : (s.file f1).type = .none) {m' : Kmem} {pi : Page}
    (halloc : kalloc s.kmem = some (pi, m')) :
    Sound kept pend { s with
      kmem := m'
      pipe := update s.pipe pi { readopen := true, writeopen := true }
      file := update (update s.file f0
        { s.file f0 with type := .pipe, writable := false, pipe := pi }) f1
        { s.file f1 with type := .pipe, writable := true, pipe := pi } } := by
  have hends := ends_makePipe hf0 hf1 hne href0 href1 htype0 htype1 pi
  have huse : forall q, pipeUse (update (update s.file f0
      { s.file f0 with type := .pipe, writable := false, pipe := pi }) f1
      { s.file f1 with type := .pipe, writable := true, pipe := pi }) q =
      pipeUse s.file q + one pi q := by
    intro q
    unfold pipeUse
    rw [hends false q, hends true q]
    omega
  have hrefs : forall g, (update (update s.file f0
      { s.file f0 with type := .pipe, writable := false, pipe := pi }) f1
      { s.file f1 with type := .pipe, writable := true, pipe := pi } g).ref =
      (s.file g).ref ∧ (g ≠ f0 -> g ≠ f1 -> update (update s.file f0
      { s.file f0 with type := .pipe, writable := false, pipe := pi }) f1
      { s.file f1 with type := .pipe, writable := true, pipe := pi } g = s.file g) := by
    intro g
    by_cases hg1 : g = f1
    · rw [hg1, update_self]
      exact ⟨rfl, fun _ h => absurd rfl h⟩
    · rw [update_of_ne hg1]
      by_cases hg0 : g = f0
      · rw [hg0, update_self]
        exact ⟨rfl, fun h => absurd rfl h⟩
      · rw [update_of_ne hg0]
        exact ⟨rfl, fun _ _ => rfl⟩
  rcases kalloc_conserve halloc (fun _ => 0) with ⟨hcons, hfree⟩
  have hfresh : pipeUse s.file pi = 0 := by
    have hle := h.owned.good.le_one pi
    rw [hfree, count_cons_one, one_self] at hle
    omega
  refine
    { owned := ?_
      files := ?_
      quiet := h.quiet
      init_lt := h.init_lt
      init_runs := h.init_runs }
  · apply h.owned.update_extra hcons (fun q => (Nat.zero_add _).symm)
    intro q
    dsimp only
    rw [huse q]
    omega
  · refine { refs := ?_, fds := h.files.fds, closed := ?_, flags := ?_ }
    · intro g hg
      dsimp only
      rw [(hrefs g).left]
      exact h.files.refs g hg
    · intro g hg hzero
      dsimp only at hzero ⊢
      rw [(hrefs g).left] at hzero
      rw [(hrefs g).right (fun heq => by rw [heq] at hzero; omega)
        (fun heq => by rw [heq] at hzero; omega)]
      exact h.files.closed g hg hzero
    · intro q hq
      dsimp only at hq ⊢
      rw [hends false q, hends true q]
      by_cases hqp : q = pi
      · rw [hqp, update_self, one_self]
        exact ⟨(decide_eq_true (Nat.succ_ne_zero _)).symm,
          (decide_eq_true (Nat.succ_ne_zero _)).symm⟩
      · rw [update_of_ne hqp, one_of_ne (fun heq => hqp heq.symm), Nat.add_zero,
          Nat.add_zero]
        rw [huse q, one_of_ne (fun heq => hqp heq.symm), Nat.add_zero] at hq
        exact h.files.flags q hq

theorem pipealloc_spec (h : Sound kept pend s) :
    exists s' res, pipealloc s = .ok (s', res) ∧ FilesOnly s s' ∧
      (res = none -> Sound kept pend s') ∧
      (forall f0 f1, res = some (f0, f1) -> f0 < NFILE ∧ f1 < NFILE ∧
        Sound kept (hold (hold pend f0) f1) s') := by
  unfold pipealloc
  rcases filealloc_spec h with hnone | ⟨f0, hf0, hfree0, htype0, hrun0, hsound0⟩
  · rw [hnone]
    exact ⟨s, none, rfl, rfl, fun _ => h, fun _ _ h => by cases h⟩
  rw [hrun0]
  dsimp only
  rcases filealloc_spec hsound0 with hnone | ⟨f1, hf1, hfree1, htype1, hrun1, hsound1⟩
  · rw [hnone]
    dsimp only
    rcases fileclose_spec hsound0 hf0 with ⟨s', hclose, hsound, honly⟩
    refine ⟨s', none, ?_, (filesOnly_setFile s f0 _).trans honly, fun _ => hsound,
      fun _ _ h => by cases h⟩
    simp only [closeEnds, hclose, ok_bind]
    rfl
  rw [hrun1]
  dsimp only
  have hne : f0 ≠ f1 := by
    intro heq
    rw [← heq] at hfree1
    simp [Kernel.setFile] at hfree1
  have honly := (filesOnly_setFile s f0 _).trans
    (filesOnly_setFile (s.setFile f0 { s.file f0 with ref := 1 }) f1
      { (s.setFile f0 { s.file f0 with ref := 1 }).file f1 with ref := 1 })
  have hold0 : ((s.setFile f0 { s.file f0 with ref := 1 }).setFile f1
      { (s.setFile f0 { s.file f0 with ref := 1 }).file f1 with ref := 1 }).file f0 =
      { s.file f0 with ref := 1 } := by
    simp [Kernel.setFile, hne]
  have hold1 : ((s.setFile f0 { s.file f0 with ref := 1 }).setFile f1
      { (s.setFile f0 { s.file f0 with ref := 1 }).file f1 with ref := 1 }).file f1 =
      { (s.setFile f0 { s.file f0 with ref := 1 }).file f1 with ref := 1 } :=
    update_self ..
  generalize (s.setFile f0 { s.file f0 with ref := 1 }).setFile f1
    { (s.setFile f0 { s.file f0 with ref := 1 }).file f1 with ref := 1 } = s2 at *
  cases halloc : kalloc s2.kmem with
  | none =>
    rw [hold_comm] at hsound1
    rcases fileclose_spec hsound1 hf0 with ⟨s3, hclose0, hsound3, honly3⟩
    rcases fileclose_spec hsound3 hf1 with ⟨s4, hclose1, hsound4, honly4⟩
    refine ⟨s4, none, ?_, (honly.trans honly3).trans honly4, fun _ => hsound4,
      fun _ _ h => by cases h⟩
    simp only [closeEnds, hclose0, hclose1, ok_bind]
    rfl
  | some taken =>
    rcases taken with ⟨pi, m'⟩
    refine ⟨_, some (f0, f1), rfl, ?_, fun h => (by cases h), fun g0 g1 heq => ?_⟩
    · rw [honly]
      simp [FilesOnly, Kernel.setFile]
    · cases heq
      have hpipe := hsound1.makePipe hf0 hf1 hne (by rw [hold0]) (by rw [hold1])
        (by rw [hold0]; exact htype0) (by rw [hold1]; exact htype1) halloc
      refine ⟨hf0, hf1, ?_⟩
      have hkeep : update s2.file f0
          { s2.file f0 with type := .pipe, writable := false, pipe := pi } f1 = s2.file f1 :=
        update_of_ne hne.symm ..
      simpa only [Kernel.setFile, hkeep] using hpipe

end Sound

end Process
end Xv6
