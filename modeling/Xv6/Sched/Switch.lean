import Xv6.Sched.Code

/-!
# A process runs on at most one CPU

The entry of a process, the point its thread is at and the lock on the entry
agree with what the CPUs do.  A process is on a CPU from the moment the scheduler
has locked its entry until the scheduler unlocks it again.
-/

namespace Xv6
namespace Sched

open Function (update update_self update_of_ne)

variable {nproc ncpu : Nat}

namespace Pc

def holdsOwn : Pc nproc -> Bool
  | .sleepRelease _ _ => true
  | .sleepSet _ _ => true
  | .swtch _ => true
  | .sleepTidy _ => true
  | .sleepUnlock _ => true
  | .yieldSet _ => true
  | .unlock _ => true
  | .exitSet _ => true
  | .exitUnlock => true
  | _ => false

def state : Pc nproc -> ProcState
  | .swtch (.sleep _ _) => .sleeping
  | .swtch .dead => .zombie
  | .swtch _ => .runnable
  | .exitUnlock => .zombie
  | _ => .running

def Forks (q : Fin nproc) : Pc nproc -> Prop
  | .forkParent np _ => np = q
  | .forkRun np _ => np = q
  | _ => False

theorem state_of_not_holdsOwn {pc : Pc nproc} (h : pc.holdsOwn = false) : pc.state = .running := by
  cases pc <;> first | rfl | cases h

end Pc

variable {pc pc' : Pc nproc} {p q : Fin nproc} {s s' : Sys nproc ncpu} {ch : Choice nproc}

def Resume.Fits (st : ProcState) : Resume nproc -> Prop
  | .sleep _ _ => st = .sleeping ∨ st = .runnable
  | .yield _ => st = .runnable
  | .forkret => st = .used ∨ st = .runnable
  | .dead => st = .zombie ∨ st = .unused

theorem Resume.fits_state (r : Resume nproc) : r.Fits (Pc.swtch r).state := by
  cases r with
  | sleep chan k => exact .inl rfl
  | yield m => rfl
  | forkret => exact .inr rfl
  | dead => exact .inl rfl

theorem Resume.fits_runnable {r : Resume nproc} (h : r ≠ .dead) : r.Fits .runnable := by
  cases r with
  | sleep chan k => exact .inr rfl
  | yield m => rfl
  | forkret => exact .inr rfl
  | dead => exact absurd rfl h

theorem Resume.Fits.ne_running {r : Resume nproc} {st : ProcState} (h : r.Fits st) :
    st ≠ .running := by
  rintro rfl
  cases r <;> simp [Resume.Fits] at h

namespace CpuPc

def engaged : CpuPc nproc -> Option (Fin nproc)
  | .scan _ => none
  | .picked p => some p
  | .chosen p => some p
  | .switch p => some p
  | .process p => some p
  | .back p => some p
  | .unlock p => some p

def runs : CpuPc nproc -> Option (Fin nproc)
  | .switch p => some p
  | .process p => some p
  | .back p => some p
  | _ => none

theorem engaged_of_runs {pt : CpuPc nproc} (h : pt.runs = some p) :
    pt.engaged = some p := by
  cases pt <;> first | exact h | cases h

end CpuPc

/-- The lock, the state and the thread of a process that CPU `c` is concerned with. -/
def OnCpu (c : Fin ncpu) (lk : Option (Fin ncpu)) (st : ProcState) (pc : Pc nproc) :
    CpuPc nproc -> Prop
  | .scan _ => False
  | .picked _ => lk = some c ∧ st = .runnable ∧ exists r, pc = .swtch r ∧ r ≠ .dead
  | .chosen _ => lk = some c ∧ st = .running ∧ exists r, pc = .swtch r ∧ r ≠ .dead
  | .switch _ => lk = some c ∧ st = .running ∧ exists r, pc = .swtch r ∧ r ≠ .dead
  | .process _ => lk = (if pc.holdsOwn then some c else none) ∧ st = pc.state
  | .back _ => lk = some c ∧ exists r, pc = .swtch r ∧ r.Fits st
  | .unlock _ => lk = some c ∧ exists r, pc = .swtch r ∧ r.Fits st

def OffCpu (lk : Option (Fin ncpu)) (st : ProcState) (pc : Pc nproc) : Prop :=
  lk = none ∧ exists r, pc = .swtch r ∧ r.Fits st

structure SwitchInv (s : Sys nproc ncpu) : Prop where
  cproc : forall c, (s.cpus c).proc = (s.cpus c).point.runs
  once : forall c c' p, (s.cpus c).point.engaged = some p ->
    (s.cpus c').point.engaged = some p -> c = c'
  on : forall c p, (s.cpus c).point.engaged = some p ->
    OnCpu c (s.plock p) (s.procs p).state (s.stack p) (s.cpus c).point
  off : forall p, (forall c, (s.cpus c).point.engaged ≠ some p) ->
    OffCpu (s.plock p) (s.procs p).state (s.stack p)
  child : forall p q, (s.stack p).Forks q -> (s.procs q).state = .used
  child_once : forall p p' q, (s.stack p).Forks q -> (s.stack p').Forks q -> p = p'

/-!
## One step

A step of a CPU concerns one process, whose lock, state and thread may change
with the point of the CPU.  Of any other process it can change the state only
while that process is off every CPU.
-/

namespace SwitchInv

variable {s s' : Sys nproc ncpu} {c : Fin ncpu} {p : Fin nproc}

theorem process_of_free (h : SwitchInv s) (hc : (s.cpus c).point.engaged = some p)
    (hlock : s.plock p = none) :
    (s.cpus c).point = .process p ∧ (s.procs p).state = .running := by
  have hon := h.on c p hc
  rw [hlock] at hon
  cases hpt : (s.cpus c).point with
  | scan j =>
    rw [hpt] at hc
    cases hc
  | process p' =>
    rw [hpt] at hon hc
    cases hc
    have hown : (s.stack p).holdsOwn = false := by
      by_contra hne
      rw [OnCpu, if_pos (by simpa using hne)] at hon
      cases hon.1
    exact ⟨rfl, hon.2.trans (Pc.state_of_not_holdsOwn hown)⟩
  | _ =>
    rw [hpt] at hon
    cases hon.1

theorem not_engaged (h : SwitchInv s) (hlock : s.plock q = none)
    (hstate : (s.procs q).state ≠ .running) (c : Fin ncpu) :
    (s.cpus c).point.engaged ≠ some q := by
  intro hc
  exact hstate (h.process_of_free hc hlock).2

theorem parked (h : SwitchInv s) {st : ProcState} (hlock : s.plock q = none)
    (hstate : (s.procs q).state = st) (hst : st ≠ .running) :
    (s.procs q).state ≠ .running ∧ exists r, s.stack q = .swtch r ∧ r.Fits st := by
  subst hstate
  exact ⟨hst, (h.off q (h.not_engaged hlock hst)).2⟩

theorem dead_of_gone (h : SwitchInv s) (hlock : s.plock q = none)
    (hgone : (s.procs q).state = .zombie ∨ (s.procs q).state = .unused) :
    s.stack q = .swtch .dead := by
  have hrun : (s.procs q).state ≠ .running := by
    rcases hgone with hstate | hstate <;> rw [hstate] <;> decide
  rcases h.off q (h.not_engaged hlock hrun) with ⟨_, r, hr, hfits⟩
  cases r with
  | dead => exact hr
  | _ => rcases hgone with hstate | hstate <;> simp [hstate, Resume.Fits] at hfits

theorem zombie_stack (h : SwitchInv s) (hzombie : (s.procs p).state = .zombie) :
    s.stack p = .exitUnlock ∨ s.stack p = .swtch .dead := by
  have hfits : forall r : Resume nproc, s.stack p = .swtch r -> r.Fits (s.procs p).state ->
      s.stack p = .swtch .dead := by
    intro r hr hfits
    rw [hzombie] at hfits
    cases r with
    | dead => exact hr
    | _ => simp [Resume.Fits] at hfits
  by_cases hc : exists c, (s.cpus c).point.engaged = some p
  · rcases hc with ⟨c, hc⟩
    have hon := h.on c p hc
    cases hpt : (s.cpus c).point with
    | scan j =>
      rw [hpt] at hc
      cases hc
    | process p' =>
      rw [hpt] at hon
      have hstate := hon.2.symm.trans hzombie
      cases hpc : s.stack p with
      | swtch r =>
        rw [hpc] at hstate
        cases r with
        | dead => exact .inr rfl
        | _ => cases hstate
      | exitUnlock => exact .inl rfl
      | _ =>
        rw [hpc] at hstate
        cases hstate
    | back p' =>
      rw [hpt] at hon
      rcases hon.2 with ⟨r, hr, hf⟩
      exact .inr (hfits r hr hf)
    | unlock p' =>
      rw [hpt] at hon
      rcases hon.2 with ⟨r, hr, hf⟩
      exact .inr (hfits r hr hf)
    | _ =>
      rw [hpt] at hon
      have hstate := hon.2.1.symm.trans hzombie
      cases hstate
  · rcases h.off p fun c hc' => hc ⟨c, hc'⟩ with ⟨_, r, hr, hf⟩
    exact .inr (hfits r hr hf)

theorem of_engaged (h : SwitchInv s) (hc : (s.cpus c).point.engaged = some p) {x : Cpu nproc}
    (hcpus : s'.cpus = update s.cpus c x) (hx : x.point.engaged = some p)
    (hproc : x.proc = x.point.runs)
    (hon : OnCpu c (s'.plock p) (s'.procs p).state (s'.stack p) x.point)
    (hother : forall q, q ≠ p -> s'.plock q = s.plock q ∧ s'.stack q = s.stack q ∧
      (s'.procs q).state = (s.procs q).state)
    (hfork : forall q, ¬ (s'.stack p).Forks q)
    (hused : (s.procs p).state = .used -> (s'.procs p).state = .used) : SwitchInv s' := by
  have hself : s'.cpus c = x := by simp [hcpus]
  have hne : forall d, d ≠ c -> s'.cpus d = s.cpus d := by
    intro d hd
    simp [hcpus, hd]
  have hengaged : forall d, (s'.cpus d).point.engaged = (s.cpus d).point.engaged := by
    intro d
    rcases eq_or_ne d c with rfl | hd
    · rw [hself, hx, hc]
    · rw [hne d hd]
  have hfork' : forall p' q, (s'.stack p').Forks q -> p' ≠ p ∧ (s.stack p').Forks q := by
    intro p' q hq
    have hp' : p' ≠ p := by
      rintro rfl
      exact hfork q hq
    rw [(hother p' hp').2.1] at hq
    exact ⟨hp', hq⟩
  constructor
  · intro d
    rcases eq_or_ne d c with rfl | hd
    · rw [hself]
      exact hproc
    · rw [hne d hd]
      exact h.cproc d
  · intro d d' q hd hd'
    rw [hengaged] at hd hd'
    exact h.once d d' q hd hd'
  · intro d q hd
    rcases eq_or_ne d c with rfl | hdc
    · rw [hself] at hd ⊢
      rw [hx] at hd
      cases hd
      exact hon
    · have hq : q ≠ p := by
        rintro rfl
        rw [hengaged] at hd
        exact hdc (h.once d c q hd hc)
      rcases hother q hq with ⟨hl, hs, hst⟩
      rw [hne d hdc] at hd ⊢
      rw [hl, hs, hst]
      exact h.on d q hd
  · intro q hq
    have hqp : q ≠ p := by
      rintro rfl
      exact hq c (by rw [hself, hx])
    rcases hother q hqp with ⟨hl, hs, hst⟩
    rw [hl, hs, hst]
    refine h.off q ?_
    intro d
    rw [← hengaged]
    exact hq d
  · intro p' q hq
    rcases hfork' p' q hq with ⟨_, hold⟩
    have hstate := h.child p' q hold
    rcases eq_or_ne q p with rfl | hqp
    · exact hused hstate
    · rw [(hother q hqp).2.2]
      exact hstate
  · intro p' p'' q hq hq'
    exact h.child_once p' p'' q (hfork' p' q hq).2 (hfork' p'' q hq').2

theorem of_process (h : SwitchInv s) (hp : (s.cpus c).point = .process p) (hcpus : s'.cpus = s.cpus)
    (hlock : s'.plock p = if (s'.stack p).holdsOwn then some c else none)
    (hstate : (s'.procs p).state = (s'.stack p).state)
    (hother : forall q, q ≠ p -> s'.plock q = s.plock q ∧
      ((s'.stack q = s.stack q ∧ (s'.procs q).state = (s.procs q).state) ∨
        (s.plock q = none ∧ (s.procs q).state ≠ .running ∧
          exists r, s'.stack q = .swtch r ∧ r.Fits (s'.procs q).state)))
    (hfork : forall q, (s'.stack p).Forks q -> (s'.procs q).state = .used ∧
      ((s.stack p).Forks q ∨ (s.procs q).state ≠ .used))
    (hused : forall q, (s.procs q).state = .used ->
      (s'.procs q).state = .used ∨ (s.stack p).Forks q) : SwitchInv s' := by
  have hengaged : (s.cpus c).point.engaged = some p := by
    rw [hp]
    rfl
  have hback : forall p', p' ≠ p -> forall q, (s'.stack p').Forks q -> (s.stack p').Forks q := by
    intro p' hp' q hq
    rcases (hother p' hp').2 with ⟨hs, _⟩ | ⟨_, _, r, hs, _⟩
    · rw [hs] at hq
      exact hq
    · rw [hs] at hq
      cases hq
  constructor
  · rw [hcpus]
    exact h.cproc
  · rw [hcpus]
    exact h.once
  · intro d q hd
    rw [hcpus] at hd ⊢
    rcases eq_or_ne q p with rfl | hq
    · have hdc := h.once d c q hd hengaged
      subst hdc
      rw [hp]
      exact ⟨hlock, hstate⟩
    · rcases hother q hq with ⟨hl, ⟨hs, hst⟩ | ⟨hfree, hrun, _⟩⟩
      · rw [hl, hs, hst]
        exact h.on d q hd
      · exact absurd hd (h.not_engaged hfree hrun d)
  · intro q hq
    rw [hcpus] at hq
    have hqp : q ≠ p := by
      rintro rfl
      exact hq c hengaged
    rcases hother q hqp with ⟨hl, ⟨hs, hst⟩ | ⟨hfree, _, r, hs, hfits⟩⟩
    · rw [hl, hs, hst]
      exact h.off q hq
    · rw [hl, hs, hfree]
      exact ⟨rfl, r, rfl, hfits⟩
  · intro p' q hq
    rcases eq_or_ne p' p with rfl | hp'
    · exact (hfork q hq).1
    · have hold := hback p' hp' q hq
      rcases hused q (h.child p' q hold) with hkeep | hmine
      · exact hkeep
      · exact absurd (h.child_once p' p q hold hmine) hp'
  · intro p' p'' q hq hq'
    rcases eq_or_ne p' p with hp' | hp' <;> rcases eq_or_ne p'' p with hp'' | hp''
    · rw [hp', hp'']
    · subst hp'
      have hold := hback p'' hp'' q hq'
      rcases (hfork q hq).2 with hmine | hnew
      · exact h.child_once _ _ q hmine hold
      · exact absurd (h.child p'' q hold) hnew
    · subst hp''
      have hold := hback p' hp' q hq
      rcases (hfork q hq').2 with hmine | hnew
      · exact h.child_once _ _ q hold hmine
      · exact absurd (h.child p' q hold) hnew
    · exact h.child_once p' p'' q (hback p' hp' q hq) (hback p'' hp'' q hq')

end SwitchInv

/-!
## The actions of a process

How an action relates the points before and after it.
-/

def Eff.Flow (pc pc' : Pc nproc) : Eff nproc -> Prop
  | .lockOwn => pc.holdsOwn = false ∧ pc'.holdsOwn = true ∧ pc'.state = .running ∧
      forall q, ¬ pc'.Forks q
  | .unlockOwn => pc'.holdsOwn = false ∧ pc.state = .running ∧ forall q, ¬ pc'.Forks q
  | .sleep _ => pc.holdsOwn = true ∧ pc'.holdsOwn = true ∧ pc'.state = .sleeping ∧
      forall q, ¬ pc'.Forks q
  | .giveUp => pc.holdsOwn = true ∧ pc'.holdsOwn = true ∧ pc'.state = .runnable ∧
      forall q, ¬ pc'.Forks q
  | .zombie _ => pc.holdsOwn = true ∧ pc'.holdsOwn = true ∧ pc'.state = .zombie ∧
      forall q, ¬ pc'.Forks q
  | .swtch => pc' = pc ∧ exists r, pc = .swtch r
  | .alloc q r => pc.holdsOwn = false ∧ pc'.holdsOwn = false ∧
    (r = .ok -> exists pid, pc' = .forkParent q pid) ∧
      (r ≠ .ok -> forall q, ¬ pc'.Forks q)
  | .wake _ _ => pc.holdsOwn = false ∧ pc'.holdsOwn = false ∧ forall q, ¬ pc'.Forks q
  | .kill _ => pc.holdsOwn = false ∧ pc'.holdsOwn = false ∧ forall q, ¬ pc'.Forks q
  | .reap _ _ => pc.holdsOwn = false ∧ pc'.holdsOwn = false ∧ forall q, ¬ pc'.Forks q
  | .father q => exists pid, pc = .forkParent q pid ∧ pc' = .forkRun q pid
  | .ready q => exists pid, pc = .forkRun q pid ∧ pc' = .ret pid
  | _ => pc'.holdsOwn = pc.holdsOwn ∧ pc'.state = pc.state ∧ forall q, ¬ pc'.Forks q

theorem Code.flow {e : Eff nproc} (h : Code s p ch pc e pc') : e.Flow pc pc' := by
  cases h with
  | wakeDone _ => next k _ => cases k <;> exact ⟨rfl, rfl, fun _ => id⟩
  | sleepRelock => next k => cases k <;> exact ⟨rfl, rfl, fun _ => id⟩
  | swtch => next r => exact ⟨rfl, r, rfl⟩
  | forkOk hunused => exact ⟨rfl, rfl, fun _ => ⟨_, rfl⟩, fun hne => absurd rfl hne⟩
  | forkBad hunused hbad => exact ⟨rfl, rfl, fun hok => absurd hok hbad, fun _ _ => id⟩
  | _ =>
    first
    | exact ⟨rfl, rfl, fun _ => id⟩
    | exact ⟨rfl, rfl, rfl, fun _ => id⟩
    | exact ⟨_, rfl, rfl⟩

theorem Code.alloc_unused {r : Alloc}
    (h : Code s p ch pc (.alloc q r) pc') : (s.procs q).state = .unused := by
  cases h with
  | forkOk hunused => exact hunused
  | forkBad hunused _ => exact hunused

theorem Code.reap_zombie {b : Bool} (h : Code s p ch pc (.reap q b) pc') :
    (s.procs q).state = .zombie ∧ (s.procs q).parent = some p ∧
      pc' = .waitRet (s.procs q).pid := by
  cases h with
  | waitReap hparent hzombie _ => exact ⟨hzombie, hparent, rfl⟩

namespace SwitchInv

variable {s : Sys nproc ncpu} {c : Fin ncpu} {p : Fin nproc}

section

variable (h : SwitchInv s)
include h

section

variable (hp : (s.cpus c).point = .process p)
include hp

theorem of_calm (hcpus : s'.cpus = s.cpus) (hplock : s'.plock = s.plock)
    (hstack : s'.stack = s.stack) (hstates : forall q, (s'.procs q).state = (s.procs q).state)
    (hown : pc.holdsOwn = (s.stack p).holdsOwn) (hst : pc.state = (s.stack p).state)
    (hfork : forall q, pc.Forks q -> (s.stack p).Forks q) : SwitchInv (s'.goto p pc) := by
  have hon := h.on c p (by rw [hp]; rfl)
  rw [hp] at hon
  refine h.of_process hp hcpus ?_ ?_ ?_ ?_ ?_
  · rw [Sys.goto_self, hown]
    change s'.plock p = _
    rw [hplock]
    exact hon.1
  · rw [Sys.goto_self, hst]
    exact (hstates p).trans hon.2
  · intro q hq
    rw [Sys.goto_ne _ _ hq, hstack]
    exact ⟨congrFun hplock q, .inl ⟨rfl, hstates q⟩⟩
  · intro q hq
    rw [Sys.goto_self] at hq
    have hold := hfork q hq
    exact ⟨(hstates q).trans (h.child p q hold), .inl hold⟩
  · intro q hq
    exact .inl ((hstates q).trans hq)

theorem of_own (hcpus : s'.cpus = s.cpus) (hplock : s'.plock = s.plock)
    (hstack : s'.stack = s.stack)
    (hstates : forall q, q ≠ p -> (s'.procs q).state = (s.procs q).state)
    (hold : (s.stack p).holdsOwn = true) (hown : pc.holdsOwn = true)
    (hst : (s'.procs p).state = pc.state) (hfork : forall q, ¬ pc.Forks q) :
    SwitchInv (s'.goto p pc) := by
  have hon := h.on c p (by rw [hp]; rfl)
  rw [hp] at hon
  have hrun : (s.procs p).state ≠ .used := by
    rw [hon.2]
    cases hpc : s.stack p with
    | swtch r => cases r <;> simp [Pc.state]
    | _ => simp [Pc.state]
  refine h.of_process hp hcpus ?_ ?_ ?_ ?_ ?_
  · rw [Sys.goto_self, hown]
    change s'.plock p = _
    rw [hplock, hon.1, hold]
  · rw [Sys.goto_self]
    exact hst
  · intro q hq
    rw [Sys.goto_ne _ _ hq, hstack]
    exact ⟨congrFun hplock q, .inl ⟨rfl, hstates q hq⟩⟩
  · intro q hq
    rw [Sys.goto_self] at hq
    exact absurd hq (hfork q)
  · intro q hq
    have hqp : q ≠ p := by
      rintro rfl
      exact hrun hq
    exact .inl ((hstates q hqp).trans hq)

theorem of_visit {x : Proc nproc} (hcpus : s'.cpus = s.cpus)
    (hplock : s'.plock = s.plock) (hprocs : s'.procs = update s.procs q x)
    (hfree : s.plock q = none) (hrun : (s.procs q).state ≠ .running)
    (hpown : (s.stack p).holdsOwn = false) (hstack : forall q', q' ≠ q -> s'.stack q' = s.stack q')
    (hfits : exists r, s'.stack q = .swtch r ∧ r.Fits x.state) (hown : pc.holdsOwn = false)
    (hfork : forall q', pc.Forks q' -> (update s.procs q x q').state = .used ∧
      ((s.stack p).Forks q' ∨ (s.procs q').state ≠ .used))
    (hused : (s.procs q).state = .used -> x.state = .used ∨ (s.stack p).Forks q) :
    SwitchInv (s'.goto p pc) := by
  have hon := h.on c p (by rw [hp]; rfl)
  rw [hp] at hon
  have hprun : (s.procs p).state = .running := hon.2.trans (Pc.state_of_not_holdsOwn hpown)
  have hqp : q ≠ p := by
    rintro rfl
    exact hrun hprun
  have hentry : forall q', (s'.goto p pc).procs q' = update s.procs q x q' :=
    fun q' => congrFun hprocs q'
  refine h.of_process hp hcpus ?_ ?_ ?_ ?_ ?_
  · rw [Sys.goto_self, hown]
    change s'.plock p = _
    rw [hplock, hon.1, hpown]
  · rw [Sys.goto_self, Pc.state_of_not_holdsOwn hown, hentry, update_of_ne (Ne.symm hqp)]
    exact hprun
  · intro q' hq'
    refine ⟨congrFun hplock q', ?_⟩
    rw [Sys.goto_ne _ _ hq', hentry]
    rcases eq_or_ne q' q with rfl | hne
    · rw [update_self]
      exact .inr ⟨hfree, hrun, hfits⟩
    · rw [update_of_ne hne]
      exact .inl ⟨hstack q' hne, rfl⟩
  · intro q' hq'
    rw [Sys.goto_self] at hq'
    rw [hentry]
    exact hfork q' hq'
  · intro q' hq'
    rw [hentry]
    rcases eq_or_ne q' q with rfl | hne
    · rw [update_self]
      exact hused hq'
    · rw [update_of_ne hne]
      exact .inl hq'

theorem of_lock {lk : Option (Fin ncpu)} (hlk : lk = if pc.holdsOwn then some c else none)
    (hst : (s.procs p).state = pc.state) (hfork : forall q, ¬ pc.Forks q) :
    SwitchInv ((s.setPlock p lk).goto p pc) := by
  refine h.of_process hp rfl ?_ ?_ ?_ ?_ fun q hq => .inl hq
  · rw [Sys.goto_self]
    exact (Sys.setPlock_self _ _ _).trans hlk
  · rw [Sys.goto_self]
    exact hst
  · intro q hq
    rw [Sys.goto_ne _ _ hq]
    exact ⟨Sys.setPlock_ne _ _ hq, .inl ⟨rfl, rfl⟩⟩
  · intro q hq
    rw [Sys.goto_self] at hq
    exact absurd hq (hfork q)

theorem of_rouse {x : Proc nproc} (hfree : s.plock q = none)
    (hx : x.state = (s.procs q).state ∨ ((s.procs q).state = .sleeping ∧ x.state = .runnable))
    (hpown : (s.stack p).holdsOwn = false) (hown : pc.holdsOwn = false)
    (hfork : forall q', ¬ pc.Forks q') : SwitchInv ((s.setProc q x).goto p pc) := by
  rcases hx with hsame | ⟨hsleep, hrunnable⟩
  · have hst : pc.state = (s.stack p).state := by
      rw [Pc.state_of_not_holdsOwn hown, Pc.state_of_not_holdsOwn hpown]
    refine h.of_calm hp rfl rfl rfl ?_ (hown.trans hpown.symm) hst
      fun q' hq' => absurd hq' (hfork q')
    intro q'
    rcases eq_or_ne q' q with rfl | hne
    · rw [Sys.setProc_self]
      exact hsame
    · rw [Sys.setProc_ne _ _ hne]
  · rcases h.parked hfree hsleep (by decide) with ⟨hrun, r, hr, hfits⟩
    refine h.of_visit hp (q := q) (x := x) rfl rfl rfl hfree hrun hpown (fun _ _ => rfl) ?_
      hown (fun q' hq' => absurd hq' (hfork q')) ?_
    · refine ⟨r, hr, ?_⟩
      rw [hrunnable]
      apply Resume.fits_runnable
      rintro rfl
      simp [Resume.Fits] at hfits
    · intro hq'
      rw [hsleep] at hq'
      cases hq'

theorem process {e : Eff nproc} (hcode : Code s p ch (s.stack p) e pc)
    (hen : s.Enabled p e) : SwitchInv ((s.apply c p e).goto p pc) := by
  have hflow := hcode.flow
  have hon := h.on c p (by rw [hp]; rfl)
  rw [hp] at hon
  have hnofork : (forall q, ¬ pc.Forks q) -> forall q, pc.Forks q -> (s.stack p).Forks q :=
    fun hno q hq => absurd hq (hno q)
  have hsame : forall (q : Fin nproc) (x : Proc nproc), x.state = (s.procs q).state ->
      forall q', ((s.setProc q x).procs q').state = (s.procs q').state := by
    intro q x hx q'
    rcases eq_or_ne q' q with rfl | hne
    · rw [Sys.setProc_self]
      exact hx
    · rw [Sys.setProc_ne _ _ hne]
  have hother : forall (q : Fin nproc) (x : Proc nproc) q', q' ≠ q ->
      ((s.setProc q x).procs q').state = (s.procs q').state := by
    intro q x q' hne
    rw [Sys.setProc_ne _ _ hne]
  cases e with
  | nothing => exact h.of_calm hp rfl rfl rfl (fun _ => rfl) hflow.1 hflow.2.1 (hnofork hflow.2.2)
  | probe q => exact h.of_calm hp rfl rfl rfl (fun _ => rfl) hflow.1 hflow.2.1 (hnofork hflow.2.2)
  | acquire l => exact h.of_calm hp rfl rfl rfl (fun _ => rfl) hflow.1 hflow.2.1 (hnofork hflow.2.2)
  | release l => exact h.of_calm hp rfl rfl rfl (fun _ => rfl) hflow.1 hflow.2.1 (hnofork hflow.2.2)
  | priv sz ofile cwd =>
    exact h.of_calm hp rfl rfl rfl (hsame p _ rfl) hflow.1 hflow.2.1 (hnofork hflow.2.2)
  | setkilled =>
    exact h.of_calm hp rfl rfl rfl (hsame p _ rfl) hflow.1 hflow.2.1 (hnofork hflow.2.2)
  | tidy => exact h.of_calm hp rfl rfl rfl (hsame p _ rfl) hflow.1 hflow.2.1 (hnofork hflow.2.2)
  | adopt q => exact h.of_calm hp rfl rfl rfl (hsame q _ rfl) hflow.1 hflow.2.1 (hnofork hflow.2.2)
  | father q =>
    rcases hflow with ⟨pid, hpc, rfl⟩
    refine h.of_calm hp rfl rfl rfl (hsame q _ rfl) (by rw [hpc]; rfl) (by rw [hpc]; rfl) ?_
    intro q' hq'
    rw [hpc]
    exact hq'
  | lockOwn =>
    rcases hflow with ⟨hold, hnew, hst, hfork⟩
    refine h.of_lock hp (by rw [hnew]; rfl) ?_ hfork
    rw [hst]
    exact hon.2.trans (Pc.state_of_not_holdsOwn hold)
  | unlockOwn =>
    rcases hflow with ⟨hnew, hst, hfork⟩
    refine h.of_lock hp (by rw [hnew]; rfl) ?_ hfork
    rw [Pc.state_of_not_holdsOwn hnew]
    exact hon.2.trans hst
  | sleep chan =>
    rcases hflow with ⟨hold, hnew, hst, hfork⟩
    exact h.of_own hp rfl rfl rfl (hother p _) hold hnew (by simp [Sys.apply, hst]) hfork
  | giveUp =>
    rcases hflow with ⟨hold, hnew, hst, hfork⟩
    exact h.of_own hp rfl rfl rfl (hother p _) hold hnew (by simp [Sys.apply, hst]) hfork
  | zombie status =>
    rcases hflow with ⟨hold, hnew, hst, hfork⟩
    refine h.of_own hp rfl rfl rfl (hother p _) hold hnew ?_ hfork
    rw [hst]
    simp [Sys.apply, Sys.setProc]
  | swtch =>
    rcases hflow with ⟨rfl, r, hr⟩
    have hproc : (s.cpus c).proc = some p := by
      rw [h.cproc c, hp]
      rfl
    have hlock : s.plock p = some c := by
      rw [hon.1, hr]
      rfl
    refine h.of_engaged (c := c) (p := p) (by rw [hp]; rfl) rfl rfl hproc ?_ ?_ ?_ ?_
    · refine ⟨hlock, r, by rw [Sys.goto_self, hr], ?_⟩
      change r.Fits (s.procs p).state
      rw [hon.2, hr]
      exact r.fits_state
    · intro q hq
      exact ⟨rfl, Sys.goto_ne _ _ hq, rfl⟩
    · intro q hq
      rw [Sys.goto_self, hr] at hq
      exact hq
    · exact id
  | wake q chan =>
    refine h.of_rouse hp hen ?_ hflow.1 hflow.2.1 hflow.2.2
    unfold wakeup
    split
    · next hsleep => exact .inr ⟨hsleep.1, rfl⟩
    · exact .inl rfl
  | kill q =>
    refine h.of_rouse hp hen ?_ hflow.1 hflow.2.1 hflow.2.2
    unfold kkill
    dsimp only
    split
    · next hsleep => exact .inr ⟨hsleep, rfl⟩
    · exact .inl rfl
  | alloc q r =>
    rcases hflow with ⟨hpown, hown, hok, hbad⟩
    have hunused := hcode.alloc_unused
    rcases h.parked hen hunused (by decide) with ⟨hrun, r0, hr0, hfits⟩
    by_cases hr : r = .ok
    · subst hr
      rcases hok rfl with ⟨pid, rfl⟩
      refine h.of_visit hp (q := q) rfl rfl rfl hen hrun hpown ?_ ?_ rfl ?_ ?_
      · intro q' hq'
        simp [Sys.apply, hq']
      · exact ⟨.forkret, by simp [Sys.apply], .inl rfl⟩
      · rintro q' rfl
        rw [update_self, hunused]
        exact ⟨rfl, .inr (by decide)⟩
      · intro hused
        rw [hunused] at hused
        cases hused
    · have hstate : (allocproc (s.procs p) (s.procs q) s.nextpid s.births r).state = .unused := by
        cases r with
        | ok => exact absurd rfl hr
        | noTrapframe => rfl
        | noPagetable => rfl
        | noCopy => rfl
      refine h.of_visit hp (q := q) rfl rfl rfl hen hrun hpown ?_ ?_ hown
        (fun q' hq' => absurd hq' (hbad hr q')) ?_
      · intro q' hq'
        simp [Sys.apply, hr]
      · exact ⟨r0, by simpa [Sys.apply, hr] using hr0, by rw [hstate]; exact hfits⟩
      · intro hused
        rw [hunused] at hused
        cases hused
  | ready q =>
    rcases hflow with ⟨pid, hpc, rfl⟩
    have hmine : (s.stack p).Forks q := by
      rw [hpc]
      rfl
    have hused := h.child p q hmine
    rcases h.parked hen hused (by decide) with ⟨hrun, r0, hr0, hfits⟩
    refine h.of_visit hp (q := q) rfl rfl rfl hen hrun (by rw [hpc]; rfl) (fun _ _ => rfl) ?_ rfl
      (fun q' hq' => absurd hq' id) fun _ => .inr hmine
    refine ⟨r0, hr0, Resume.fits_runnable ?_⟩
    rintro rfl
    simp [Resume.Fits] at hfits
  | reap q copied =>
    rcases hcode.reap_zombie with ⟨hzombie, _, _⟩
    rcases h.parked hen hzombie (by decide) with ⟨hrun, r0, hr0, hfits⟩
    refine h.of_visit hp (q := q) rfl rfl rfl hen hrun hflow.1 (fun _ _ => rfl) ?_ hflow.2.1
      (fun q' hq' => absurd hq' (hflow.2.2 q')) ?_
    · refine ⟨r0, hr0, ?_⟩
      cases r0 with
      | sleep chan k => simp [Resume.Fits] at hfits
      | yield m => simp [Resume.Fits] at hfits
      | forkret => simp [Resume.Fits] at hfits
      | dead => exact .inr rfl
    · intro hused
      rw [hzombie] at hused
      cases hused

end

theorem cproc_setPoint {pt : CpuPc nproc} (hpt : (s.cpus c).point.runs = pt.runs) (d : Fin ncpu) :
    ((s.setPoint c pt).cpus d).proc = ((s.setPoint c pt).cpus d).point.runs := by
  rcases eq_or_ne d c with rfl | hdc
  · simp only [Sys.setPoint, Sys.setCpu_self]
    exact (h.cproc d).trans hpt
  · simp only [Sys.setPoint, Sys.setCpu_ne _ _ hdc]
    exact h.cproc d

theorem pick (hpt : (s.cpus c).point = .scan q)
    (hfree : s.plock q = none) (hstate : (s.procs q).state = .runnable) :
    SwitchInv ((s.setPlock q (some c)).setPoint c (.picked q)) := by
  rcases h.parked hfree hstate (by decide) with ⟨hrun, r, hr, hfits⟩
  have hoff := h.not_engaged hfree hrun
  have hengaged : forall d q',
      (((s.setPlock q (some c)).setPoint c (.picked q)).cpus d).point.engaged = some q' ->
        (d = c ∧ q' = q) ∨ (d ≠ c ∧ q' ≠ q ∧ (s.cpus d).point.engaged = some q') := by
    intro d q' hd
    rcases eq_or_ne d c with rfl | hdc
    · simp only [Sys.setPoint, Sys.setCpu_self] at hd
      cases hd
      exact .inl ⟨rfl, rfl⟩
    · simp only [Sys.setPoint, Sys.setCpu_ne _ _ hdc] at hd
      refine .inr ⟨hdc, ?_, hd⟩
      rintro rfl
      exact hoff d hd
  constructor
  · exact h.cproc_setPoint (by rw [hpt]; rfl)
  · intro d d' q' hd hd'
    rcases hengaged d q' hd with ⟨rfl, rfl⟩ | ⟨_, hq, hold⟩
    · rcases hengaged d' _ hd' with ⟨rfl, _⟩ | ⟨_, hne, _⟩
      · rfl
      · exact absurd rfl hne
    · rcases hengaged d' q' hd' with ⟨_, rfl⟩ | ⟨_, _, hold'⟩
      · exact absurd rfl hq
      · exact h.once d d' q' hold hold'
  · intro d q' hd
    rcases hengaged d q' hd with ⟨rfl, rfl⟩ | ⟨hdc, hq, hold⟩
    · simp only [Sys.setPoint, Sys.setCpu_self]
      refine ⟨Sys.setPlock_self _ _ _, hstate, r, hr, ?_⟩
      rintro rfl
      simp [Resume.Fits] at hfits
    · simp only [Sys.setPoint, Sys.setCpu_ne _ _ hdc]
      have hon := h.on d q' hold
      change OnCpu d ((s.setPlock q (some c)).plock q') _ _ _
      rw [Sys.setPlock_ne _ _ hq]
      exact hon
  · intro q' hq'
    have hq : q' ≠ q := by
      rintro rfl
      apply hq' c
      simp only [Sys.setPoint, Sys.setCpu_self]
      rfl
    change OffCpu ((s.setPlock q (some c)).plock q') _ _
    rw [Sys.setPlock_ne _ _ hq]
    refine h.off q' fun d hd => hq' d ?_
    rcases eq_or_ne d c with rfl | hdc
    · rw [hpt] at hd
      cases hd
    · simp only [Sys.setPoint, Sys.setCpu_ne _ _ hdc]
      exact hd
  · exact h.child
  · exact h.child_once

theorem leave (hpt : (s.cpus c).point = .unlock p) (j : Nat) :
    SwitchInv ((s.setPlock p none).setPoint c (.scan j)) := by
  have hc : (s.cpus c).point.engaged = some p := by
    rw [hpt]
    rfl
  have hengaged : forall d q, (((s.setPlock p none).setPoint c (.scan j)).cpus d).point.engaged =
      some q -> d ≠ c ∧ q ≠ p ∧ (s.cpus d).point.engaged = some q := by
    intro d q hd
    rcases eq_or_ne d c with rfl | hdc
    · simp only [Sys.setPoint, Sys.setCpu_self] at hd
      cases hd
    · simp only [Sys.setPoint, Sys.setCpu_ne _ _ hdc] at hd
      refine ⟨hdc, ?_, hd⟩
      rintro rfl
      exact hdc (h.once d c q hd hc)
  constructor
  · exact h.cproc_setPoint (by rw [hpt]; rfl)
  · intro d d' q hd hd'
    exact h.once d d' q (hengaged d q hd).2.2 (hengaged d' q hd').2.2
  · intro d q hd
    rcases hengaged d q hd with ⟨hdc, hq, hold⟩
    simp only [Sys.setPoint, Sys.setCpu_ne _ _ hdc]
    have hon := h.on d q hold
    change OnCpu d ((s.setPlock p none).plock q) _ _ _
    rw [Sys.setPlock_ne _ _ hq]
    exact hon
  · intro q hq
    change OffCpu ((s.setPlock p none).plock q) _ _
    rcases eq_or_ne q p with rfl | hqp
    · have hon := h.on c q hc
      rw [hpt] at hon
      exact ⟨Sys.setPlock_self _ _ _, hon.2⟩
    · rw [Sys.setPlock_ne _ _ hqp]
      refine h.off q fun d hd => hq d ?_
      rcases eq_or_ne d c with rfl | hdc
      · rw [hc] at hd
        exact absurd (Option.some.inj hd).symm hqp
      · simp only [Sys.setPoint, Sys.setCpu_ne _ _ hdc]
        exact hd
  · exact h.child
  · exact h.child_once

theorem rescan {j : Nat} (hpt : (s.cpus c).point = .scan j) (j' : Nat) :
    SwitchInv (s.setPoint c (.scan j')) := by
  have hengaged : forall d, ((s.setPoint c (.scan j')).cpus d).point.engaged =
      (s.cpus d).point.engaged := by
    intro d
    rcases eq_or_ne d c with rfl | hdc
    · simp only [Sys.setPoint, Sys.setCpu_self, hpt]
      rfl
    · simp only [Sys.setPoint, Sys.setCpu_ne _ _ hdc]
  constructor
  · exact h.cproc_setPoint (by rw [hpt]; rfl)
  · intro d d' q hd hd'
    rw [hengaged] at hd hd'
    exact h.once d d' q hd hd'
  · intro d q hd
    rcases eq_or_ne d c with rfl | hdc
    · simp only [Sys.setPoint, Sys.setCpu_self] at hd
      cases hd
    · simp only [Sys.setPoint, Sys.setCpu_ne _ _ hdc] at hd ⊢
      exact h.on d q hd
  · intro q hq
    refine h.off q fun d hd => hq d ?_
    rw [hengaged]
    exact hd
  · exact h.child
  · exact h.child_once

theorem move (hmove : Move s c ch s') : SwitchInv s' := by
  have hnofork : forall {q q' : Fin nproc} {r : Resume nproc}, s.stack q = .swtch r ->
      ¬ (s.stack q).Forks q' := by
    intro q q' r hr hq
    rw [hr] at hq
    exact hq
  cases hmove with
  | pick q hpt hfree hstate => exact h.pick hpt hfree hstate
  | next j j' hpt => exact h.rescan hpt j'
  | run p hpt =>
    have hon := h.on c p (by rw [hpt]; rfl)
    rw [hpt] at hon
    rcases hon with ⟨hlock, hstate, r, hr, hdead⟩
    have hproc := h.cproc c
    rw [hpt] at hproc
    refine h.of_engaged (c := c) (p := p) (by rw [hpt]; rfl) rfl rfl hproc ?_ ?_ ?_ ?_
    · refine ⟨hlock, ?_, r, hr, hdead⟩
      simp [Sys.setPoint, Sys.setCpu, Sys.setProc]
    · intro q hq
      refine ⟨rfl, rfl, ?_⟩
      simp [Sys.setPoint, Sys.setCpu, Sys.setProc, hq]
    · intro q
      exact hnofork hr
    · intro hused
      rw [hstate] at hused
      cases hused
  | assign p hpt =>
    have hon := h.on c p (by rw [hpt]; rfl)
    rw [hpt] at hon
    rcases hon with ⟨hlock, hstate, r, hr, hdead⟩
    refine h.of_engaged (c := c) (p := p) (by rw [hpt]; rfl) rfl rfl rfl
      ⟨hlock, hstate, r, hr, hdead⟩ (fun q _ => ⟨rfl, rfl, rfl⟩) (fun q => hnofork hr) id
  | switch p hpt =>
    have hon := h.on c p (by rw [hpt]; rfl)
    rw [hpt] at hon
    rcases hon with ⟨hlock, hstate, r, hr, hdead⟩
    have hproc := h.cproc c
    rw [hpt] at hproc
    have hresume : (s.stack p).resume.holdsOwn = true ∧ (s.stack p).resume.state = .running ∧
        forall q, ¬ (s.stack p).resume.Forks q := by
      rw [hr]
      cases r with
      | sleep chan k => exact ⟨rfl, rfl, fun _ => id⟩
      | yield m => exact ⟨rfl, rfl, fun _ => id⟩
      | forkret => exact ⟨rfl, rfl, fun _ => id⟩
      | dead => exact absurd rfl hdead
    refine h.of_engaged (c := c) (p := p) (by rw [hpt]; rfl) rfl rfl hproc ?_ ?_ ?_ id
    · constructor
      · change s.plock p = if ((s.goto p _).stack p).holdsOwn then some c else none
        rw [Sys.goto_self, hresume.1]
        exact hlock
      · change (s.procs p).state = ((s.goto p _).stack p).state
        rw [Sys.goto_self, hresume.2.1]
        exact hstate
    · intro q hq
      exact ⟨rfl, Sys.goto_ne _ _ hq, rfl⟩
    · intro q hq
      change ((s.goto p _).stack p).Forks q at hq
      rw [Sys.goto_self] at hq
      exact hresume.2.2 q hq
  | process p e pc hpt hcode hen => exact h.process hpt hcode hen
  | clear p hpt =>
    have hon := h.on c p (by rw [hpt]; rfl)
    rw [hpt] at hon
    rcases hon with ⟨hlock, r, hr, hfits⟩
    refine h.of_engaged (c := c) (p := p) (by rw [hpt]; rfl) rfl rfl rfl ⟨hlock, r, hr, hfits⟩
      (fun q _ => ⟨rfl, rfl, rfl⟩) (fun q => hnofork hr) id
  | release p hpt => exact h.leave hpt (p + 1)

end

theorem of_booted (h : s.Booted) : SwitchInv s := by
  have hscan : forall c, (s.cpus c).point.engaged = none := by
    intro c
    rw [h.cpus c]
    rfl
  have hstack : forall p, exists r, s.stack p = .swtch r ∧ r.Fits (s.procs p).state := by
    intro p
    rcases eq_or_ne p s.initproc with rfl | hp
    · exact ⟨.forkret, h.init_stack, .inr h.init_state⟩
    · exact ⟨.dead, h.stack p hp, .inr (h.unused p hp)⟩
  have hnofork : forall p q, ¬ (s.stack p).Forks q := by
    intro p q hq
    rcases hstack p with ⟨r, hr, _⟩
    rw [hr] at hq
    exact hq
  constructor
  · intro c
    rw [h.cpus c]
    rfl
  · intro c c' p hc
    rw [hscan c] at hc
    cases hc
  · intro c p hc
    rw [hscan c] at hc
    cases hc
  · intro p _
    exact ⟨h.plock p, hstack p⟩
  · intro p q hq
    exact absurd hq (hnofork p q)
  · intro p p' q hq
    exact absurd hq (hnofork p q)

end SwitchInv

theorem switchInv_reachable {ok : Sys nproc ncpu -> _ -> Prop}
    (h : (system nproc ncpu).ReachableVia ok s) : SwitchInv s :=
  h.invariant (fun _ => SwitchInv.of_booted) fun _ _ _ hinv _ hstep => hinv.move (step_move hstep)

/-!
## Where a process runs

`c->proc` and `p->state` agree whenever `p->lock` is free, and a process that is
not running has no CPU on its kernel stack.
-/

theorem runs_on_one_cpu {s : Sys nproc ncpu} (h : (system nproc ncpu).Reachable s) (p : Fin nproc) :
    (forall c c', (s.cpus c).proc = some p -> (s.cpus c').proc = some p -> c = c') ∧
    (s.plock p = none -> ((s.procs p).state = .running <-> ∃! c, (s.cpus c).proc = some p)) ∧
    (s.plock p = none -> (s.procs p).state ≠ .running ->
      forall c, (s.cpus c).point ≠ .process p) := by
  have hinv := switchInv_reachable h
  have honce : forall c c', (s.cpus c).proc = some p -> (s.cpus c').proc = some p -> c = c' := by
    intro c c' hc hc'
    rw [hinv.cproc] at hc hc'
    exact hinv.once c c' p (CpuPc.engaged_of_runs hc) (CpuPc.engaged_of_runs hc')
  refine ⟨honce, ?_, ?_⟩
  · intro hfree
    constructor
    · intro hrun
      have hengaged : exists c, (s.cpus c).point.engaged = some p := by
        by_contra hno
        rcases hinv.off p fun c hc => hno ⟨c, hc⟩ with ⟨_, r, _, hfits⟩
        exact hfits.ne_running hrun
      rcases hengaged with ⟨c, hc⟩
      have hproc : (s.cpus c).proc = some p := by
        rw [hinv.cproc, (hinv.process_of_free hc hfree).1]
        rfl
      exact ⟨c, hproc, fun c' hc' => honce c' c hc' hproc⟩
    · rintro ⟨c, hc, _⟩
      rw [hinv.cproc] at hc
      exact (hinv.process_of_free (CpuPc.engaged_of_runs hc) hfree).2
  · intro hfree hrun c hc
    apply hinv.not_engaged hfree hrun c
    rw [hc]
    rfl

def forkOnce : List (Fin 2 × Choice NPROC) :=
  List.replicate 5 (0, .go) ++
  [(0, .kfork), (0, .go), (0, .alloc .ok), (0, .go), (0, .go), (0, .go)]

def bothRun : List (Fin 2 × Choice NPROC) :=
  forkOnce ++ List.replicate 6 (1, .go)

theorem runs_on_one_cpu_both :
    exists s : Sys NPROC 2, (system NPROC 2).Reachable s ∧ (s.cpus 0).proc = some 0 ∧
      (s.cpus 1).proc = some 1 ∧ (s.procs 1).state = .running ∧
      (∃! c, (s.cpus c).proc = some 0) ∧ ∃! c, (s.cpus c).proc = some 1 := by
  have hcheck : (Lib.System.run (fun s l => Sys.step s l.1 l.2) (fun _ _ => True) (Sys.boot NPROC 2)
      bothRun).any (fun s => decide (((s.cpus 0).proc = some 0 ∧ (s.cpus 1).proc = some 1) ∧
        ((s.procs 0).state = .running ∧ s.plock 0 = none) ∧
        (s.procs 1).state = .running ∧ s.plock 1 = none)) = true := by
    decide +kernel
  have hinit : (system NPROC 2).Reachable _ := .init (Sys.booted_boot NPROC 2)
  obtain ⟨s, hreach, hcheck⟩ := hinit.run_any (fun _ _ _ h => h) hcheck
  rcases of_decide_eq_true hcheck with ⟨hcpus, ⟨hstate0, hfree0⟩, hstate1, hfree1⟩
  exact ⟨s, hreach, hcpus.1, hcpus.2, hstate1, ((runs_on_one_cpu hreach 0).2.1 hfree0).1 hstate0,
    ((runs_on_one_cpu hreach 1).2.1 hfree1).1 hstate1⟩

end Sched
end Xv6
