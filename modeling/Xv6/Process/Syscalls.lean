import Xv6.Process.Files

/-!
# System calls keep the invariant
-/

namespace Xv6
namespace Process

open Lib Vm Function

def Active (s : Kernel) (i : Nat) : Prop :=
  (s.proc i).state ≠ .unused ∧ (s.proc i).state ≠ .zombie

section

variable {kept : Reserve} {pend : Nat -> Nat} {s s' : Kernel} {i : Nat}

theorem Sound.live (h : Sound kept pend s) (hi : i < NPROC) (ha : Active s i) :
    Live s.kmem s.trampoline (s.proc i) :=
  (h.owned.wf i hi).live ha.left

theorem Sound.good (h : Sound kept pend s) (hi : i < NPROC) :
    Good s.kmem (memUse s.kmem (s.proc i)) :=
  (h.owned.good_proc hi).mono (fun _ => Nat.le_add_right _ _)

theorem Files.setSlot {proc : Nat -> Proc} {file : Nat -> File} {pipe : Page -> Pipe}
    (h : Files proc file pipe pend) (hi : i < NPROC) {p' : Proc}
    (hofile : p'.ofile = (proc i).ofile) : Files (update proc i p') file pipe pend := by
  refine { refs := ?_, fds := ?_, closed := h.closed, flags := h.flags }
  · intro f hf
    have href := refCount_update proc hi p' f
    have hold := h.refs f hf
    rw [hofile] at href
    omega
  · intro j hj fd hfd f hof
    by_cases hij : j = i
    · rw [hij, update_self, hofile] at hof
      exact h.fds i hi fd hfd f hof
    · rw [update_of_ne hij] at hof
      exact h.fds j hj fd hfd f hof

theorem Sound.setSlot (h : Sound kept pend s) (hi : i < NPROC) {m' : Kmem} {p' : Proc}
    (hcons : Conserve s.kmem m' (memUse s.kmem (s.proc i)) (memUse m' p'))
    (hwf : WfProc m' s.trampoline p') (hofile : p'.ofile = (s.proc i).ofile)
    (hquiet : p'.state = .unused ∨ p'.state = .zombie -> p'.argv = [] ∧
      forall fd, fd < NOFILE -> p'.ofile fd = none)
    (hinit : i = s.initproc -> p'.state = .runnable) :
    Sound kept pend ({ s with kmem := m' }.setProc i p') := by
  have hself : ({ s with kmem := m' }.setProc i p').proc i = p' := setProc_proc ..
  have helse : forall j, j ≠ i -> ({ s with kmem := m' }.setProc i p').proc j = s.proc j :=
    fun j hne => update_of_ne hne ..
  refine
    { owned := h.owned.update hi hcons hwf
      files := h.files.setSlot hi hofile
      quiet := ?_
      init_lt := h.init_lt
      init_runs := ?_ }
  · intro j hj hstate
    by_cases hij : j = i
    · rw [hij, hself] at hstate ⊢
      exact hquiet hstate
    · rw [helse j hij] at hstate ⊢
      exact h.quiet j hj hstate
  · change (update s.proc i p' s.initproc).state = _
    by_cases hij : s.initproc = i
    · rw [hij, update_self]
      exact hinit hij.symm
    · rw [update_of_ne hij]
      exact h.init_runs

theorem Sound.private (h : Sound kept pend s) (hi : i < NPROC) (ha : Active s i)
    (hp : Private s s' i) : Sound kept pend s' := by
  have hwf := hp.wf ha.left
  have htrampoline : s'.trampoline = s.trampoline := by rw [hp.eq]; rfl
  rw [htrampoline] at hwf
  rw [hp.eq]
  apply h.setSlot hi hp.conserve hwf hp.ofile_eq
  · intro hstate
    rw [hp.state_eq] at hstate
    rcases hstate with hu | hz
    · exact absurd hu ha.left
    · exact absurd hz ha.right
  · intro heq
    rw [hp.state_eq, heq]
    exact h.init_runs

theorem Private.active (hp : Private s s' i) (ha : Active s i) : Active s' i := by
  unfold Active
  rw [hp.state_eq]
  exact ha

/-!
## Descriptors
-/

variable {f fd : Nat}

theorem Sound.opened (h : Sound kept (hold pend f) s) (hi : i < NPROC)
    (ha : Active s i) (hf : f < NFILE) (hfd : fd < NOFILE) (hnone : (s.proc i).ofile fd = none) :
    Sound kept pend (setFd s i fd (some f)) := by
  apply h.setDescriptor hi ha hfd (fun g hg => by cases hg; exact hf)
  intro g
  simp [hnone, hold, one]

theorem Sound.released (h : Sound kept pend s) (hi : i < NPROC)
    (ha : Active s i) (hfd : fd < NOFILE) (hsome : (s.proc i).ofile fd = some f) :
    Sound kept (hold pend f) (setFd s i fd none) := by
  apply h.setDescriptor hi ha hfd (fun g hg => by cases hg)
  intro g
  simp [hsome, hold, one]

theorem fdalloc_spec (h : Sound kept (hold pend f) s) (hi : i < NPROC)
    (ha : Active s i) (hf : f < NFILE) :
    fdalloc s i f = (s, none) ∨ exists fd, fd < NOFILE ∧ (s.proc i).ofile fd = none ∧
      fdalloc s i f = (setFd s i fd (some f), some fd) ∧
      Sound kept pend (setFd s i fd (some f)) := by
  unfold fdalloc
  cases hfind : (List.range NOFILE).find? (fun fd => decide ((s.proc i).ofile fd = none)) with
  | none => exact Or.inl rfl
  | some fd =>
    rcases find_range hfind with ⟨hfd, hfree⟩
    replace hfree : (s.proc i).ofile fd = none := of_decide_eq_true hfree
    exact Or.inr ⟨fd, hfd, hfree, rfl, h.opened hi ha hf hfd hfree⟩

theorem setFd_active (fd : Nat) (x : Option Nat) (ha : Active s i) :
    Active (setFd s i fd x) i := by
  unfold Active setFd
  rw [setProc_proc]
  exact ha

section

variable (h : Sound kept pend s) (hi : i < NPROC)
include h hi

theorem sysClose_spec (ha : Active s i) (fd : Nat) :
    exists s', sysClose s i fd = .ok s' ∧ Sound kept pend s' := by
  unfold sysClose
  by_cases hfd : fd >= NOFILE
  · rw [if_pos hfd]
    exact ⟨s, rfl, h⟩
  · rw [if_neg hfd]
    cases hof : (s.proc i).ofile fd with
    | none => exact ⟨s, rfl, h⟩
    | some f =>
      have hf := h.files.fds i hi fd (Nat.not_le.mp hfd) f hof
      rcases fileclose_spec (h.released hi ha (Nat.not_le.mp hfd) hof) hf with
        ⟨s', hrun, hsound, _⟩
      exact ⟨s', hrun, hsound⟩

theorem Sound.ref_pos (hfd : fd < NOFILE)
    (hof : (s.proc i).ofile fd = some f) : 0 < (s.file f).ref := by
  have hrefs := h.files.refs f (h.files.fds i hi fd hfd f hof)
  have hpos := fdCount_pos hfd hof
  have hle := fdCount_le_refCount s.proc hi f
  omega

theorem sysDup_spec (ha : Active s i) (fd : Nat) :
    exists s', sysDup s i fd = .ok s' ∧ Sound kept pend s' := by
  unfold sysDup
  by_cases hfd : fd >= NOFILE
  · rw [if_pos hfd]
    exact ⟨s, rfl, h⟩
  rw [if_neg hfd]
  cases hof : (s.proc i).ofile fd with
  | none => exact ⟨s, rfl, h⟩
  | some f =>
    have hf := h.files.fds i hi fd (Nat.not_le.mp hfd) f hof
    have href := h.ref_pos hi (Nat.not_le.mp hfd) hof
    unfold fdalloc
    cases hfind : (List.range NOFILE).find? (fun k => decide ((s.proc i).ofile k = none)) with
    | none => exact ⟨s, rfl, h⟩
    | some k =>
      rcases find_range hfind with ⟨hk, hfree⟩
      -- `filedup` comes after the descriptor is set; the two do not interfere.
      rcases filedup_spec h hf href with ⟨_, hdup⟩
      exact ⟨_, if_neg (Nat.not_lt.mpr href),
        hdup.opened hi ha hf hk (of_decide_eq_true hfree)⟩

theorem sysOpen_spec (ha : Active s i) (device writable : Bool) :
    exists s', sysOpen s i device writable = .ok s' ∧ Sound kept pend s' := by
  unfold sysOpen
  rcases filealloc_spec h with hnone | ⟨f, hf, hfree, htype, hrun, hsound⟩
  · rw [hnone]
    exact ⟨s, rfl, h⟩
  rw [hrun]
  dsimp only
  rcases fdalloc_spec hsound hi ha hf with hnone | ⟨fd, hfd, hempty, hrun', hsound'⟩
  · rw [hnone]
    rcases fileclose_spec hsound hf with ⟨s', hclose, hdone, _⟩
    exact ⟨s', hclose, hdone⟩
  · rw [hrun']
    have hfile : (setFd (s.setFile f { s.file f with ref := 1 }) i fd (some f)).file f =
        { s.file f with ref := 1 } := update_self ..
    refine ⟨_, rfl, hsound'.setFile hf ?_ ?_ rfl (fun _ _ => rfl)⟩
    · intro w q
      rw [hfile]
      constructor
      · intro hend
        have hpipe := hend.right.left
        cases device <;> cases hpipe
      · intro hend
        have hpipe := hend.right.left
        dsimp only at hpipe
        rw [htype] at hpipe
        cases hpipe
    · rw [hfile]
      intro hzero
      cases hzero

end

/-!
## `sys_pipe`
-/

theorem closeBoth_spec {g : Nat} (h : Sound kept (hold (hold pend f) g) s) (hf : f < NFILE)
    (hg : g < NFILE) :
    exists s', (fileclose s f >>= fun s => fileclose s g) = .ok s' ∧ Sound kept pend s' := by
  rw [hold_comm] at h
  rcases fileclose_spec h hf with ⟨s1, hrun1, h1, _⟩
  rcases fileclose_spec h1 hg with ⟨s2, hrun2, h2, _⟩
  refine ⟨s2, ?_, h2⟩
  rw [hrun1]
  exact hrun2

theorem setFd_self (s : Kernel) (i fd : Nat) (x : Option Nat) :
    ((setFd s i fd x).proc i).ofile fd = x := by
  unfold setFd
  rw [setProc_proc]
  exact update_self ..

theorem setFd_of_ne (s : Kernel) (i : Nat) {k : Nat} (x : Option Nat) (h : k ≠ fd) :
    ((setFd s i fd x).proc i).ofile k = (s.proc i).ofile k := by
  unfold setFd
  rw [setProc_proc]
  exact update_of_ne h ..

theorem copyoutPair_private (hlive : Live s.kmem s.trampoline (s.proc i))
    (hgood : Good s.kmem (memUse s.kmem (s.proc i))) (addr addr' : Nat) :
    exists m done m' done',
      copyout s.kmem (s.myproc i) (s.proc i).pagetable addr 4 = .ok (m, done) ∧
      (if done then copyout m (s.myproc i) (s.proc i).pagetable addr' 4 else pure (m, false)) =
        .ok (m', done') ∧
      Private s { s with kmem := m' } i := by
  rcases copyout_private hlive hgood addr 4 with ⟨m, done, hrun, hp⟩
  cases done with
  | false => exact ⟨m, false, m, false, hrun, rfl, hp⟩
  | true =>
    rcases copyout_private hp.live (hgood.conserve hp.conserve) addr' 4 with
      ⟨m', done', hrun', hp'⟩
    exact ⟨m, true, m', done', hrun, hrun', hp.trans hp'⟩

theorem sysPipe_spec (h : Sound kept pend s) (hi : i < NPROC) (ha : Active s i) (addr : Nat) :
    exists s', sysPipe s i addr = .ok s' ∧ Sound kept pend s' := by
  unfold sysPipe
  rcases pipealloc_spec h with ⟨s1, res, hrun, honly, hnone, hsome⟩
  simp only [hrun, ok_bind]
  cases res with
  | none => exact ⟨s1, rfl, hnone rfl⟩
  | some pair =>
    rcases pair with ⟨rf, wf⟩
    rcases hsome rf wf rfl with ⟨hrf, hwf, h1⟩
    have ha1 : Active s1 i := by
      unfold Active
      rw [honly.proc_eq]
      exact ha
    dsimp only
    have h1' := h1
    rw [hold_comm] at h1'
    rcases fdalloc_spec h1' hi ha1 hrf with hfull | ⟨fd0, hfd0, hfree0, hrun0, h2⟩
    · rw [hfull]
      exact closeBoth_spec h1 hrf hwf
    rw [hrun0]
    dsimp only
    have ha2 := setFd_active fd0 (some rf) ha1
    have hof2 := setFd_self s1 i fd0 (some rf)
    generalize setFd s1 i fd0 (some rf) = s2 at *
    rcases fdalloc_spec h2 hi ha2 hwf with hfull | ⟨fd1, hfd1, hfree1, hrun1, h3⟩
    · rw [hfull]
      have hback := h2.released hi ha2 hfd0 hof2
      rw [hold_comm] at hback
      exact closeBoth_spec hback hrf hwf
    rw [hrun1]
    dsimp only
    have hne : fd0 ≠ fd1 := by
      intro heq
      rw [heq, hfree1] at hof2
      cases hof2
    have ha3 := setFd_active fd1 (some wf) ha2
    have hof3 := setFd_self s2 i fd1 (some wf)
    have hof3' := (setFd_of_ne s2 i (some wf) hne).trans hof2
    generalize setFd s2 i fd1 (some wf) = s3 at *
    rcases copyoutPair_private (h3.live hi ha3) (h3.good hi) addr ((addr + 4) % 2 ^ 64) with
      ⟨m, done, m', done', hcopy, hcopy', hp⟩
    have h4 := h3.private hi ha3 hp
    simp only [hcopy, hcopy', ok_bind]
    cases done' with
    | true => exact ⟨_, rfl, h4⟩
    | false =>
      have ha4 : Active { s3 with kmem := m' } i := ha3
      have h5 := h4.released hi ha4 hfd0 hof3'
      have h6 := h5.released hi (setFd_active fd0 none ha4) hfd1
        ((setFd_of_ne _ i none hne.symm).trans hof3)
      exact closeBoth_spec h6 hrf hwf

end

end Process
end Xv6
