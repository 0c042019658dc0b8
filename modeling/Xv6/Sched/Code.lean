import Xv6.Sched.Machine

/-!
# The actions of a process

`Code` lists the actions of the kernel thread of a process, one constructor for
each branch of the code, with what the branch has tested.  Every result about
the machine takes the code through this list.
-/

namespace Xv6
namespace Sched

variable {nproc ncpu : Nat}

inductive Code (s : Sys nproc ncpu) (p : Fin nproc) (ch : Choice nproc) :
    Pc nproc -> Eff nproc -> Pc nproc -> Prop where
  | acquire {m : Mode} {held : List Nat} {n : Nat} : n ∉ held ->
      Code s p ch (.client m held) (.acquire (.other n)) (.client m (n :: held))
  | release {m : Mode} {held : List Nat} {n : Nat} : n ∈ held ->
      Code s p ch (.client m held) (.release (.other n)) (.client m (held.filter (· ≠ n)))
  | wakeup {m : Mode} {held : List Nat} {chan : Chan nproc} :
      Code s p ch (.client m held) .nothing (.wake chan 0 (.client m held))
  | sleep {m : Mode} {n : Nat} {chan : Chan nproc} :
      Code s p ch (.client m [n]) .nothing (.sleepAcquire chan (.client m n))
  | yield {m : Mode} : Code s p ch (.client m []) .nothing (.yieldAcquire m)
  | priv {held : List Nat} {sz : Nat} {ofile : Fin NOFILE -> Bool} :
      Code s p ch (.client .normal held) (.priv sz ofile (s.procs p).cwd) (.client .normal held)
  | fault : ch = .fault ->
      Code s p ch (.client .normal []) .setkilled (.client .normal [])
  | alive : (s.procs p).killed = false ->
      Code s p ch (.client .normal []) (.probe p) (.client .normal [])
  | dying : (s.procs p).killed = true ->
      Code s p ch (.client .normal []) (.probe p) (.exit (-1))
  | kkill {pid : Int} : ch = .kkill pid ->
      Code s p ch (.client .normal []) .nothing (.kill pid 0)
  | kfork : Code s p ch (.client .normal []) .nothing (.forkScan 0)
  | kwait {addr : Nat} : Code s p ch (.client .normal []) .nothing (.waitLock addr)
  | kexit {status : Int} : ch = .kexit status ->
      Code s p ch (.client .normal []) .nothing (.exit status)
  | closeFd {status : Int} {fd : Nat} (h : fd < NOFILE) :
      Code s p ch (.client (.exiting status fd) [])
        (.priv (s.procs p).sz (Function.update (s.procs p).ofile ⟨fd, h⟩ false) (s.procs p).cwd)
        (.client (.exiting status (fd + 1)) [])
  | closeDone {status : Int} {fd : Nat} : NOFILE <= fd ->
      Code s p ch (.client (.exiting status fd) [])
        (.priv (s.procs p).sz (s.procs p).ofile false) (.exitLock status)
  | wakeSkip {chan : Chan nproc} {k : WakeKont} :
      Code s p ch (.wake chan p k) .nothing (.wake chan (p + 1) k)
  | wakeVisit {chan : Chan nproc} {q : Fin nproc} {k : WakeKont} : q ≠ p ->
      Code s p ch (.wake chan q k) (.wake q chan) (.wake chan (q + 1) k)
  | wakeDone {chan : Chan nproc} {j : Nat} {k : WakeKont} : nproc <= j ->
      Code s p ch (.wake chan j k) .nothing k.pc
  | sleepAcquire {chan : Chan nproc} {k : SleepKont} :
      Code s p ch (.sleepAcquire chan k) .lockOwn (.sleepRelease chan k)
  | sleepRelease {chan : Chan nproc} {k : SleepKont} :
      Code s p ch (.sleepRelease chan k) (.release k.lk) (.sleepSet chan k)
  | sleepSet {chan : Chan nproc} {k : SleepKont} :
      Code s p ch (.sleepSet chan k) (.sleep chan) (.swtch (.sleep chan k))
  | swtch {r : Resume nproc} : Code s p ch (.swtch r) .swtch (.swtch r)
  | sleepTidy {k : SleepKont} : Code s p ch (.sleepTidy k) .tidy (.sleepUnlock k)
  | sleepUnlock {k : SleepKont} : Code s p ch (.sleepUnlock k) .unlockOwn (.sleepRelock k)
  | sleepRelock {k : SleepKont} : Code s p ch (.sleepRelock k) (.acquire k.lk) k.pc
  | yieldAcquire {m : Mode} : Code s p ch (.yieldAcquire m) .lockOwn (.yieldSet m)
  | yieldSet {m : Mode} : Code s p ch (.yieldSet m) .giveUp (.swtch (.yield m))
  | unlock {m : Mode} : Code s p ch (.unlock m) .unlockOwn (.client m [])
  | killHit {pid : Int} {q : Fin nproc} : (s.procs q).pid = pid ->
      Code s p ch (.kill pid q) (.kill q) (.ret 0)
  | killMiss {pid : Int} {q : Fin nproc} : (s.procs q).pid ≠ pid ->
      Code s p ch (.kill pid q) (.probe q) (.kill pid (q + 1))
  | killDone {pid : Int} {j : Nat} : nproc <= j ->
      Code s p ch (.kill pid j) .nothing (.ret (-1))
  | forkOk {q : Fin nproc} : (s.procs q).state = .unused ->
      Code s p ch (.forkScan q) (.alloc q .ok) (.forkParent q s.nextpid)
  | forkBad {q : Fin nproc} {r : Alloc} : (s.procs q).state = .unused -> r ≠ .ok ->
      Code s p ch (.forkScan q) (.alloc q r) (.ret (-1))
  | forkNext {q : Fin nproc} : (s.procs q).state ≠ .unused ->
      Code s p ch (.forkScan q) (.probe q) (.forkScan (q + 1))
  | forkNone {j : Nat} : nproc <= j ->
      Code s p ch (.forkScan j) .nothing (.ret (-1))
  | forkParent {q : Fin nproc} {pid : Int} :
      Code s p ch (.forkParent q pid) (.father q) (.forkRun q pid)
  | forkRun {q : Fin nproc} {pid : Int} : Code s p ch (.forkRun q pid) (.ready q) (.ret pid)
  | exit {status : Int} : p ≠ s.initproc ->
      Code s p ch (.exit status) .nothing (.client (.exiting status 0) [])
  | exitLock {status : Int} :
      Code s p ch (.exitLock status) (.acquire .wait) (.reparent status 0)
  | reparentHit {status : Int} {q : Fin nproc} : (s.procs q).parent = some p ->
      Code s p ch (.reparent status q) (.adopt q)
        (.wake (.proc s.initproc) 0 (.reparent status (q + 1)))
  | reparentMiss {status : Int} {q : Fin nproc} : (s.procs q).parent ≠ some p ->
      Code s p ch (.reparent status q) .nothing (.reparent status (q + 1))
  | reparentDone {status : Int} {j : Nat} : nproc <= j ->
      Code s p ch (.reparent status j) .nothing
        (.wake (((s.procs p).parent.map Chan.proc).getD .null) 0 (.exitOwn status))
  | exitOwn {status : Int} : Code s p ch (.exitOwn status) .lockOwn (.exitSet status)
  | exitSet {status : Int} : Code s p ch (.exitSet status) (.zombie status) .exitUnlock
  | exitUnlock : Code s p ch .exitUnlock (.release .wait) (.swtch .dead)
  | waitLock {addr : Nat} :
      Code s p ch (.waitLock addr) (.acquire .wait) (.waitScan addr 0 false)
  | waitReap {addr : Nat} {q : Fin nproc} {kids copied : Bool} :
      (s.procs q).parent = some p -> (s.procs q).state = .zombie ->
      (copied = true <-> addr ≠ 0) ->
      Code s p ch (.waitScan addr q kids) (.reap q copied) (.waitRet (s.procs q).pid)
  | waitFault {addr : Nat} {q : Fin nproc} {kids : Bool} : addr ≠ 0 ->
      (s.procs q).parent = some p -> (s.procs q).state = .zombie ->
      Code s p ch (.waitScan addr q kids) (.probe q) (.waitRet (-1))
  | waitAlive {addr : Nat} {q : Fin nproc} {kids : Bool} :
      (s.procs q).parent = some p -> (s.procs q).state ≠ .zombie ->
      Code s p ch (.waitScan addr q kids) (.probe q) (.waitScan addr (q + 1) true)
  | waitOther {addr : Nat} {q : Fin nproc} {kids : Bool} : (s.procs q).parent ≠ some p ->
      Code s p ch (.waitScan addr q kids) .nothing (.waitScan addr (q + 1) kids)
  | waitNone {addr j : Nat} : nproc <= j ->
      Code s p ch (.waitScan addr j false) .nothing (.waitRet (-1))
  | waitKilled {addr j : Nat} {kids : Bool} : nproc <= j -> (s.procs p).killed = true ->
      Code s p ch (.waitScan addr j kids) (.probe p) (.waitRet (-1))
  | waitSleep {addr j : Nat} {kids : Bool} : nproc <= j -> (s.procs p).killed = false ->
      Code s p ch (.waitScan addr j kids) (.probe p) (.sleepAcquire (.proc p) (.wait addr))
  | waitRet {r : Int} : Code s p ch (.waitRet r) (.release .wait) (.ret r)
  | ret {r : Int} : Code s p ch (.ret r) .nothing (.client .normal [])

variable {s : Sys nproc ncpu} {p : Fin nproc} {ch : Choice nproc} {e : Eff nproc}
  {pc pc' : Pc nproc}

theorem client_cases {m : Mode} {held : List Nat} (h : s.client p m held ch = some (e, pc')) :
    Code s p ch (.client m held) e pc' := by
  cases ch with
  | acquire n =>
    rcases Option.ite_none_left_eq_some.mp h with ⟨hn, heq⟩
    cases heq
    exact .acquire hn
  | release n =>
    rcases Option.ite_none_right_eq_some.mp h with ⟨hn, heq⟩
    cases heq
    exact .release hn
  | wakeup chan =>
    cases h
    exact .wakeup
  | sleep chan n =>
    rcases Option.ite_none_right_eq_some.mp h with ⟨rfl, heq⟩
    cases heq
    exact .sleep
  | yield =>
    rcases Option.ite_none_right_eq_some.mp h with ⟨rfl, heq⟩
    cases heq
    exact .yield
  | priv sz ofile =>
    rcases Option.ite_none_right_eq_some.mp h with ⟨rfl, heq⟩
    cases heq
    exact .priv
  | fault =>
    rcases Option.ite_none_right_eq_some.mp h with ⟨⟨rfl, rfl⟩, heq⟩
    cases heq
    exact .fault rfl
  | check =>
    rcases Option.ite_none_right_eq_some.mp h with ⟨⟨rfl, rfl⟩, heq⟩
    cases heq
    split
    · next hk => exact .dying hk
    · next hk => exact .alive (by simpa using hk)
  | kkill pid =>
    rcases Option.ite_none_right_eq_some.mp h with ⟨⟨rfl, rfl⟩, heq⟩
    cases heq
    exact .kkill rfl
  | kfork =>
    rcases Option.ite_none_right_eq_some.mp h with ⟨⟨rfl, rfl⟩, heq⟩
    cases heq
    exact .kfork
  | kwait addr =>
    rcases Option.ite_none_right_eq_some.mp h with ⟨⟨rfl, rfl⟩, heq⟩
    cases heq
    exact .kwait
  | kexit status =>
    rcases Option.ite_none_right_eq_some.mp h with ⟨⟨rfl, rfl⟩, heq⟩
    cases heq
    exact .kexit rfl
  | go =>
    cases m with
    | normal => cases h
    | exiting status fd =>
      rcases Option.ite_none_right_eq_some.mp h with ⟨rfl, heq⟩
      split at heq
      · next hfd =>
          cases heq
          exact .closeFd hfd
      · next hfd =>
          cases heq
          exact .closeDone (Nat.le_of_not_lt hfd)
  | alloc r => cases h
  | copyout ok => cases h

theorem wakeupLoop_cases {chan : Chan nproc} {j : Nat} {k : WakeKont}
    (h : Sys.wakeupLoop p chan j k = (e, pc')) : Code s p ch (.wake chan j k) e pc' := by
  unfold Sys.wakeupLoop at h
  split at h
  · next hj =>
      split at h
      · next heq =>
          cases h
          subst heq
          exact .wakeSkip
      · next hne =>
          cases h
          exact .wakeVisit (q := ⟨j, hj⟩) fun heq => hne (congrArg Fin.val heq)
  · next hj =>
      cases h
      exact .wakeDone (Nat.le_of_not_lt hj)

theorem kkillLoop_cases {pid : Int} {j : Nat} (h : s.kkillLoop pid j = (e, pc')) :
    Code s p ch (.kill pid j) e pc' := by
  unfold Sys.kkillLoop at h
  split at h
  · next hj =>
      split at h
      · next hpid =>
          cases h
          exact .killHit hpid
      · next hpid =>
          cases h
          exact .killMiss (q := ⟨j, hj⟩) hpid
  · next hj =>
      cases h
      exact .killDone (Nat.le_of_not_lt hj)

theorem allocprocLoop_cases {j : Nat} (h : s.allocprocLoop j ch = some (e, pc')) :
    Code s p ch (.forkScan j) e pc' := by
  unfold Sys.allocprocLoop at h
  split at h
  · next hj =>
      split at h
      · next hunused =>
          split at h
          · cases h
            exact .forkOk hunused
          · next r hr =>
              cases h
              refine .forkBad (q := ⟨j, hj⟩) hunused ?_
              rintro rfl
              exact hr rfl
          · cases h
      · next hused =>
          cases h
          exact .forkNext (q := ⟨j, hj⟩) hused
  · next hj =>
      cases h
      exact .forkNone (Nat.le_of_not_lt hj)

theorem reparentLoop_cases {status : Int} {pp : Nat} (h : s.reparentLoop p status pp = (e, pc')) :
    Code s p ch (.reparent status pp) e pc' := by
  unfold Sys.reparentLoop at h
  split at h
  · next hpp =>
      split at h
      · next hparent =>
          cases h
          exact .reparentHit (q := ⟨pp, hpp⟩) hparent
      · next hparent =>
          cases h
          exact .reparentMiss (q := ⟨pp, hpp⟩) hparent
  · next hpp =>
      cases h
      exact .reparentDone (Nat.le_of_not_lt hpp)

theorem kwaitLoop_cases {addr pp : Nat} {kids : Bool}
    (h : s.kwaitLoop p addr pp kids ch = (e, pc')) :
    Code s p ch (.waitScan addr pp kids) e pc' := by
  unfold Sys.kwaitLoop at h
  split at h
  · next hpp =>
      split at h
      · next hparent =>
          split at h
          · next hzombie =>
              split at h
              · cases h
                exact .waitReap (q := ⟨pp, hpp⟩) hparent hzombie (by simp)
              · cases h
                exact .waitFault (q := ⟨pp, hpp⟩) (by simp) hparent hzombie
              · cases h
                exact .waitReap (q := ⟨pp, hpp⟩) hparent hzombie (by simp)
          · next halive =>
              cases h
              exact .waitAlive (q := ⟨pp, hpp⟩) hparent halive
      · next hparent =>
          cases h
          exact .waitOther (q := ⟨pp, hpp⟩) hparent
  · next hpp =>
      have hle := Nat.le_of_not_lt hpp
      split at h
      · next hkids =>
          cases h
          subst hkids
          exact .waitNone hle
      · cases h
        split
        · next hk => exact .waitKilled hle hk
        · next hk => exact .waitSleep hle (by simpa using hk)

theorem code_cases (h : s.code p ch pc = some (e, pc')) : Code s p ch pc e pc' := by
  cases pc with
  | client m held => exact client_cases h
  | wake chan j k => exact wakeupLoop_cases (Option.some.inj h)
  | kill pid j => exact kkillLoop_cases (Option.some.inj h)
  | forkScan j => exact allocprocLoop_cases h
  | reparent status pp => exact reparentLoop_cases (Option.some.inj h)
  | waitScan addr pp kids => exact kwaitLoop_cases (Option.some.inj h)
  | exit status =>
    rcases Option.ite_none_left_eq_some.mp h with ⟨hp, heq⟩
    cases heq
    exact .exit hp
  | _ =>
    cases h
    constructor

/-!
## Steps of a CPU
-/

/-- The actions of the scheduler and the switches, or one action of the process that runs. -/
inductive Move (s : Sys nproc ncpu) (c : Fin ncpu) (ch : Choice nproc) : Sys nproc ncpu -> Prop
  where
  | pick (q : Fin nproc) : (s.cpus c).point = .scan q -> s.plock q = none ->
      (s.procs q).state = .runnable ->
      Move s c ch ((s.setPlock q (some c)).setPoint c (.picked q))
  | next (j j' : Nat) : (s.cpus c).point = .scan j -> Move s c ch (s.setPoint c (.scan j'))
  | run (p : Fin nproc) : (s.cpus c).point = .picked p ->
      Move s c ch ((s.setProc p { s.procs p with state := .running }).setPoint c (.chosen p))
  | assign (p : Fin nproc) : (s.cpus c).point = .chosen p ->
      Move s c ch (s.setCpu c { proc := some p, point := .switch p })
  | switch (p : Fin nproc) : (s.cpus c).point = .switch p ->
      Move s c ch ((s.goto p (s.stack p).resume).setPoint c (.process p))
  | process (p : Fin nproc) (e : Eff nproc) (pc : Pc nproc) : (s.cpus c).point = .process p ->
      Code s p ch (s.stack p) e pc -> s.Enabled p e ->
      Move s c ch ((s.apply c p e).goto p pc)
  | clear (p : Fin nproc) : (s.cpus c).point = .back p ->
      Move s c ch (s.setCpu c { proc := none, point := .unlock p })
  | release (p : Fin nproc) : (s.cpus c).point = .unlock p ->
      Move s c ch ((s.setPlock p none).setPoint c (.scan (p + 1)))

theorem step_move {c : Fin ncpu} {s' : Sys nproc ncpu} (h : s.step c ch = some s') :
    Move s c ch s' := by
  unfold Sys.step at h
  split at h
  · next j hpt =>
      split at h
      · next hj =>
          split at h
          · next hfree =>
              split at h
              · next hrun =>
                  cases h
                  exact .pick ⟨j, hj⟩ hpt hfree hrun
              · cases h
                exact .next j (j + 1) hpt
          · cases h
      · cases h
        exact .next j 0 hpt
  · next p hpt =>
      cases h
      exact .run p hpt
  · next p hpt =>
      cases h
      exact .assign p hpt
  · next p hpt =>
      cases h
      exact .switch p hpt
  · next p hpt =>
      rcases Option.bind_eq_some_iff.mp h with ⟨⟨e, pc⟩, hcode, hrest⟩
      split at hrest
      · next hen =>
          cases hrest
          exact .process p e pc hpt (code_cases hcode) hen
      · cases hrest
  · next p hpt =>
      cases h
      exact .clear p hpt
  · next p hpt =>
      cases h
      exact .release p hpt

/-!
## Fields after an update
-/

namespace Sys

variable (s : Sys nproc ncpu)

@[simp]
theorem setProc_self (q : Fin nproc) (x : Proc nproc) : (s.setProc q x).procs q = x := by
  simp [setProc]

theorem setProc_ne {q q' : Fin nproc} (x : Proc nproc) (h : q' ≠ q) :
    (s.setProc q x).procs q' = s.procs q' := by
  simp [setProc, h]

@[simp]
theorem goto_self (p : Fin nproc) (pc : Pc nproc) : (s.goto p pc).stack p = pc := by
  simp [goto]

theorem goto_ne {p q : Fin nproc} (pc : Pc nproc) (h : q ≠ p) :
    (s.goto p pc).stack q = s.stack q := by
  simp [goto, h]

@[simp]
theorem setPlock_self (q : Fin nproc) (o : Option (Fin ncpu)) :
    (s.setPlock q o).plock q = o := by
  simp [setPlock]

theorem setPlock_ne {q q' : Fin nproc} (o : Option (Fin ncpu)) (h : q' ≠ q) :
    (s.setPlock q o).plock q' = s.plock q' := by
  simp [setPlock, h]

@[simp]
theorem setCpu_self (c : Fin ncpu) (x : Cpu nproc) : (s.setCpu c x).cpus c = x := by
  simp [setCpu]

theorem setCpu_ne {c c' : Fin ncpu} (x : Cpu nproc) (h : c' ≠ c) :
    (s.setCpu c x).cpus c' = s.cpus c' := by
  simp [setCpu, h]

end Sys

/-!
## Entries after an action

An action changes at most one entry.
-/

namespace Eff

def target (p : Fin nproc) : Eff nproc -> Option (Fin nproc)
  | .wake q _ => some q
  | .kill q => some q
  | .priv _ _ _ => some p
  | .setkilled => some p
  | .sleep _ => some p
  | .giveUp => some p
  | .tidy => some p
  | .zombie _ => some p
  | .adopt q => some q
  | .alloc q _ => some q
  | .father q => some q
  | .ready q => some q
  | .reap q _ => some q
  | _ => none

def write (s : Sys nproc ncpu) (p : Fin nproc) (x : Proc nproc) : Eff nproc -> Proc nproc
  | .wake _ chan => wakeup chan x
  | .kill _ => Sched.kkill x
  | .priv sz ofile cwd =>
    { x with
      sz := sz
      ofile := ofile
      cwd := cwd }
  | .setkilled => { x with killed := true }
  | .sleep chan =>
    { x with
      chan := chan
      state := .sleeping }
  | .giveUp => { x with state := .runnable }
  | .tidy => { x with chan := .null }
  | .zombie status =>
    { x with
      xstate := status
      state := .zombie }
  | .adopt _ => { x with parent := some s.initproc }
  | .alloc _ r => allocproc (s.procs p) x s.nextpid s.births r
  | .father _ => { x with parent := some p }
  | .ready _ => { x with state := .runnable }
  | .reap _ _ => freeproc x
  | _ => x

end Eff

theorem apply_target {s : Sys nproc ncpu} {c : Fin ncpu} {p q : Fin nproc} {e : Eff nproc}
    (h : e.target p = some q) : (s.apply c p e).procs q = e.write s p (s.procs q) := by
  cases e <;> cases h <;> exact Sys.setProc_self _ _ _

theorem apply_other {s : Sys nproc ncpu} {c : Fin ncpu} {p q : Fin nproc} {e : Eff nproc}
    (h : e.target p ≠ some q) : (s.apply c p e).procs q = s.procs q := by
  cases e <;> first
    | rfl
    | exact Sys.setProc_ne _ _ fun heq => h (congrArg some heq.symm)

end Sched
end Xv6
