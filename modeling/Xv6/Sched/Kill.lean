import Xv6.Sched.Slots
import Mathlib.Data.List.FinRange

/-!
# `kkill`

`kkill` looks for a number in all slots and does not look at their state.  What
it can hit is decided by the numbers the slots hold.
-/

namespace Xv6
namespace Sched

open Lib

variable {nproc ncpu : Nat}

variable {s s' : Sys nproc ncpu} {p q : Fin nproc} {pc pc' : Pc nproc} {ch : Choice nproc}
variable {e : Eff nproc} {pid : Int} {c : Fin ncpu}

/-!
## The numbers looked for
-/

def Aims (ok : Int -> Prop) (s : Sys nproc ncpu) : Prop :=
  forall p pid j, s.stack p = .kill pid j -> ok pid

variable {j : Nat} {procs : Fin nproc -> Proc nproc}

theorem Code.into_kill (h : Code s p ch pc e pc')
    (hpc : pc' = .kill pid j) : ch = .kkill pid ∨ exists i, pc = .kill pid i := by
  cases h with
  | wakeDone _ => next k _ => cases k <;> cases hpc
  | sleepRelock => next k => cases k <;> cases hpc
  | kkill hch =>
    cases hpc
    exact .inl hch
  | killMiss _ =>
    cases hpc
    exact .inr ⟨_, rfl⟩
  | _ => cases hpc

theorem Pc.of_resume_kill (h : pc.resume = .kill pid j) :
    pc = .kill pid j := by
  cases pc with
  | swtch r => cases r <;> cases h
  | _ => exact h

theorem Aims.move {ok : Int -> Prop}
    (h : Aims ok s) (hch : forall pid, ch = .kkill pid -> ok pid) (hmove : Move s c ch s') :
    Aims ok s' := by
  cases hmove with
  | switch p hpt =>
    intro q pid j hq
    change (s.goto p _).stack q = _ at hq
    rcases eq_or_ne q p with rfl | hne
    · rw [Sys.goto_self] at hq
      exact h q pid j (Pc.of_resume_kill hq)
    · rw [Sys.goto_ne _ _ hne] at hq
      exact h q pid j hq
  | process p e pc hpt hcode hen =>
    intro q pid j hq
    rcases eq_or_ne q p with rfl | hne
    · rw [Sys.goto_self] at hq
      rcases hcode.into_kill hq with hkill | ⟨i, hi⟩
      · exact hch pid hkill
      · exact h q pid i hi
    · rcases after_stack s c e pc hne with heq | ⟨_, hnew⟩
      · rw [heq] at hq
        exact h q pid j hq
      · rw [hnew] at hq
        cases hq
  | _ => exact h

theorem aims_of_booted {ok : Int -> Prop} (h : s.Booted) : Aims ok s := by
  intro p pid j hp
  rcases eq_or_ne p s.initproc with rfl | hne
  · rw [h.init_stack] at hp
    cases hp
  · rw [h.stack p hne] at hp
    cases hp

theorem Code.kill_aim (h : Code s p ch pc (.kill q) pc') :
    exists pid j, pc = .kill pid j ∧ (s.procs q).pid = pid := by
  cases h with
  | killHit hpid => exact ⟨_, _, rfl, hpid⟩

/-!
## A call without interruption
-/

def kkillCall (procs : Fin nproc -> Proc nproc) (pid : Int) :
    Int × (Fin nproc -> Proc nproc) :=
  match (List.finRange nproc).find? fun q => (procs q).pid = pid with
  | some q => (0, Function.update procs q (kkill (procs q)))
  | none => (-1, procs)

theorem kkillCall_eq_zero :
    (kkillCall procs pid).1 = 0 <-> exists q, (procs q).pid = pid := by
  unfold kkillCall
  split
  · next q hq =>
      have hpid := List.find?_some hq
      exact ⟨fun _ => ⟨q, by simpa using hpid⟩, fun _ => rfl⟩
  · next hnone =>
      refine ⟨nofun, ?_⟩
      rintro ⟨q, hq⟩
      have hno := List.find?_eq_none.mp hnone q (List.mem_finRange q)
      exact absurd hq (by simpa using hno)

theorem kkillCall_fails (h : (kkillCall procs pid).1 ≠ 0) : (kkillCall procs pid).2 = procs := by
  unfold kkillCall at h ⊢
  split at h
  · exact absurd rfl h
  · rfl

theorem kkillCall_first (hq : (procs q).pid = pid)
    (hbefore : forall r, r < q -> (procs r).pid ≠ pid) :
    kkillCall procs pid = (0, Function.update procs q (kkill (procs q))) := by
  have hfind : (List.finRange nproc).find? (fun q => (procs q).pid = pid) = some q := by
    refine List.find?_eq_some_iff_getElem.mpr ⟨decide_eq_true hq, q, by simp, by simp, ?_⟩
    intro j hj
    simpa using hbefore ⟨j, hj.trans q.isLt⟩ hj
  unfold kkillCall
  rw [hfind]

theorem kkillCall_none (hnone : forall r, (procs r).pid ≠ pid) :
    kkillCall procs pid = (-1, procs) := by
  have hfind : (List.finRange nproc).find? (fun q => (procs q).pid = pid) = none :=
    List.find?_eq_none.mpr fun r _ => by simpa using hnone r
  unfold kkillCall
  rw [hfind]

theorem step_kill (hp : (s.cpus c).point = .process p) (hpc : s.stack p = .kill pid j)
    (hloop : s.kkillLoop pid j = (e, pc)) (hen : s.Enabled p e) :
    s.step c .go = some ((s.apply c p e).goto p pc) := by
  have hcode : s.code p .go (s.stack p) = some (e, pc) := by
    rw [hpc]
    exact congrArg some hloop
  rw [Sys.step, hp]
  simp only [hcode, Option.bind_some, if_pos hen]

theorem run_kkill (hp : (s.cpus c).point = .process p) (hpc : s.stack p = .kill pid j)
    (hfree : forall q, s.plock q = none)
    (hbefore : forall r : Fin nproc, r < j -> (s.procs r).pid ≠ pid) :
    exists n s', System.run (fun s l => Sys.step s l.1 l.2) (fun _ _ => True) s
        (List.replicate n (c, .go)) = some s' ∧ s'.procs = (kkillCall s.procs pid).2 ∧
      s'.stack p = .ret (kkillCall s.procs pid).1 := by
  induction hleft : nproc - j generalizing s j with
  | zero =>
    have hloop : s.kkillLoop pid j = (.nothing, .ret (-1)) := by
      rw [Sys.kkillLoop, dif_neg (by omega)]
    rw [kkillCall_none fun r => hbefore r (by have := r.isLt; omega)]
    refine ⟨1, s.goto p (.ret (-1)), ?_, rfl, Sys.goto_self _ _ _⟩
    simp only [List.replicate_one, System.run, if_true, step_kill hp hpc hloop trivial,
      Option.bind_some, Sys.apply]
  | succ left ih =>
    have hj : j < nproc := by
      omega
    by_cases hpid : (s.procs ⟨j, hj⟩).pid = pid
    · have hloop : s.kkillLoop pid j = (.kill ⟨j, hj⟩, .ret 0) := by
        rw [Sys.kkillLoop, dif_pos hj, if_pos hpid]
      rw [kkillCall_first hpid hbefore]
      refine ⟨1, (s.apply c p (.kill ⟨j, hj⟩)).goto p (.ret 0), ?_, rfl, Sys.goto_self _ _ _⟩
      simp only [List.replicate_one, System.run, if_true, step_kill hp hpc hloop (hfree _),
        Option.bind_some]
    · have hloop : s.kkillLoop pid j = (.probe ⟨j, hj⟩, .kill pid (j + 1)) := by
        rw [Sys.kkillLoop, dif_pos hj, if_neg hpid]
      have hnext : forall r : Fin nproc, r < j + 1 -> (s.procs r).pid ≠ pid := by
        intro r hr
        rcases Nat.lt_or_eq_of_le (Nat.le_of_lt_succ hr) with hr | rfl
        · exact hbefore r hr
        · exact hpid
      rcases ih (s := s.goto p (.kill pid (j + 1))) hp (Sys.goto_self _ _ _) hfree hnext (by omega)
        with ⟨n, s', hrun, hprocs, hret⟩
      refine ⟨n + 1, s', ?_, hprocs, hret⟩
      rw [List.replicate_succ, System.run, if_pos trivial]
      simp only [step_kill hp hpc hloop (hfree _), Option.bind_some]
      exact hrun

/-!
## Unused slots

A `kkill(0)` would mark an unused slot, whose number is 0.
-/

def Choice.kills : Choice nproc -> Option Int
  | .kkill pid => some pid
  | _ => none

/-- The user program asks for the end of its process, or runs into an unexpected trap. -/
def Choice.quits : Choice nproc -> Bool
  | .kexit _ => true
  | .fault => true
  | _ => false

def NoKillZero (_ : Sys nproc ncpu) (l : Fin ncpu × Choice nproc) : Prop :=
  l.2.kills ≠ some 0

instance (s : Sys nproc ncpu) (l : Fin ncpu × Choice nproc) : Decidable (NoKillZero s l) :=
  inferInstanceAs (Decidable (_ ≠ _))

def Spared (s : Sys nproc ncpu) : Prop :=
  forall q, (s.procs q).state = .unused -> (s.procs q).killed = false

theorem Spared.move (h : Spared s)
    (hsw : SwitchInv s) (hslot : SlotInv s) (haim : Aims (fun pid => pid ≠ 0) s)
    (hmove : Move s c ch s') : Spared s' := by
  cases hmove with
  | run p hpt =>
    intro q hq
    change ((s.setProc p _).procs q).state = .unused at hq
    change ((s.setProc p _).procs q).killed = false
    rcases eq_or_ne q p with rfl | hne
    · rw [Sys.setProc_self] at hq
      cases hq
    · rw [Sys.setProc_ne _ _ hne] at hq ⊢
      exact h q hq
  | process p e pc hpt hcode hen =>
    intro q hq
    change ((s.apply c p e).procs q).state = .unused at hq
    change ((s.apply c p e).procs q).killed = false
    rcases kept_or_moved hsw hslot.bare hpt hcode q with hk | ⟨r, rfl⟩ | ⟨b, rfl⟩
    · have hold := hk.unused.1 hq
      have hmine : q ≠ p := by
        rintro rfl
        exact hsw.executing hpt hold
      by_cases ht : e.target p = some q
      · rw [apply_target ht]
        cases e with
        | kill q' =>
          cases ht
          rcases hcode.kill_aim with ⟨pid, j, hpc, hpid⟩
          exact absurd (hpid.symm.trans (hslot.bare q hold).pid) (haim p pid j hpc)
        | wake q' chan =>
          simp only [Eff.write, wakeup, hold]
          exact h q hold
        | adopt q' => exact h q hold
        | father q' => exact h q hold
        | ready q' => exact h q hold
        | alloc q' r => cases r <;> first | rfl | exact h q hold
        | reap q' b => rfl
        | _ => cases ht <;> exact absurd rfl hmine
      · rw [apply_other ht]
        exact h q hold
    · rw [apply_target rfl] at hq ⊢
      cases r with
      | ok => cases hq
      | _ => rfl
    · rw [apply_target rfl]
      rfl
  | _ => exact h

theorem spared_reachable (h : (system nproc ncpu).ReachableVia NoKillZero s) :
    SwitchInv s ∧ SlotInv s ∧ Aims (fun pid => pid ≠ 0) s ∧ Spared s := by
  refine h.invariant
    (I := fun s => SwitchInv s ∧ SlotInv s ∧ Aims (fun pid => pid ≠ 0) s ∧ Spared s) ?_ ?_
  · intro s hs
    refine ⟨SwitchInv.of_booted hs, SlotInv.of_booted hs, aims_of_booted hs, ?_⟩
    intro q hq
    have hne : q ≠ s.initproc := by
      rintro rfl
      rw [hs.init_state] at hq
      cases hq
    exact (hs.clean q hne).killed
  · rintro s ⟨c, ch⟩ s' ⟨hsw, hslot, haim, hspared⟩ hok hstep
    have hmove := step_move hstep
    refine ⟨hsw.move hmove, hslot.move hsw hmove, haim.move ?_ hmove,
      hspared.move hsw hslot haim hmove⟩
    rintro pid rfl rfl
    exact hok rfl

theorem SlotInv.pid_eq (h : SlotInv s) (hpids : s.births < 2 ^ 31 - 1)
    (hq : (s.procs q).state ≠ .unused) :
    (s.procs q).pid = (s.procs q).birth + 1 := by
  rcases h.born q hq with ⟨hlt, hpid⟩
  rw [hpid, Sys.wrap32, Int.bmod_eq_of_le (by omega) (by omega)]

theorem slots_clean {s : Sys nproc ncpu} (h : (system nproc ncpu).ReachableVia NoKillZero s)
    (hpids : s.births < 2 ^ 31 - 1) :
    (forall q, (s.procs q).state = .unused -> Sys.Clean (s.procs q)) ∧
    (forall q, (s.procs q).state ≠ .unused -> 0 < (s.procs q).pid) ∧
    (forall q q', (s.procs q).state ≠ .unused -> (s.procs q').state ≠ .unused ->
      (s.procs q).pid = (s.procs q').pid -> q = q') ∧
    (forall pid, pid ≠ 0 ->
      ((kkillCall s.procs pid).1 = 0 <->
        exists q, (s.procs q).state ≠ .unused ∧ (s.procs q).pid = pid) ∧
      ((kkillCall s.procs pid).1 ≠ 0 -> (kkillCall s.procs pid).2 = s.procs)) ∧
    forall parent q pid birth, (s.procs q).state = .unused ->
      (allocproc parent (s.procs q) pid birth .ok).killed = false := by
  rcases spared_reachable h with ⟨_, hslot, _, hspared⟩
  refine ⟨?_, ?_, ?_, ?_, ?_⟩
  · intro q hq
    exact ⟨hslot.bare q hq, hspared q hq⟩
  · intro q hq
    rw [hslot.pid_eq hpids hq]
    omega
  · intro q q' hq hq' heq
    rw [hslot.pid_eq hpids hq, hslot.pid_eq hpids hq'] at heq
    exact hslot.distinct q q' hq hq' (by omega)
  · intro pid hpid
    refine ⟨?_, kkillCall_fails⟩
    rw [kkillCall_eq_zero]
    constructor
    · rintro ⟨q, hq⟩
      refine ⟨q, ?_, hq⟩
      intro hun
      exact hpid (hq.symm.trans (hslot.bare q hun).pid)
    · rintro ⟨q, _, hq⟩
      exact ⟨q, hq⟩
  · intro parent q pid birth hq
    exact hspared q hq

theorem slots_clean_forked :
    exists s : Sys NPROC 2, (system NPROC 2).ReachableVia NoKillZero s ∧
      (s.procs 1).state = .runnable ∧ 0 < (s.procs 1).pid ∧
      ((kkillCall s.procs 2).1 = 0 <->
        exists q, (s.procs q).state ≠ .unused ∧ (s.procs q).pid = 2) ∧
      ((s.procs 2).state = .unused -> Sys.Clean (s.procs 2)) := by
  have hcheck : (System.run (fun s l => Sys.step s l.1 l.2) NoKillZero (Sys.boot NPROC 2)
      forkOnce).any (fun s => decide (s.births < 2 ^ 31 - 1 ∧
        (s.procs 1).state = .runnable)) = true := by
    decide +kernel
  have hinit : (system NPROC 2).ReachableVia NoKillZero _ := .init (Sys.booted_boot NPROC 2)
  obtain ⟨s, hreach, hcheck⟩ := hinit.run_any (fun _ _ _ h => h) hcheck
  rcases of_decide_eq_true hcheck with ⟨hpids, hstate⟩
  rcases slots_clean hreach hpids with ⟨hclean, hpos, _, hkill, _⟩
  have hused : (s.procs 1).state ≠ .unused := by
    rw [hstate]
    decide
  exact ⟨s, hreach, hstate, hpos 1 hused, (hkill 2 (by decide)).1, hclean 2⟩

/-- The first process calls `kkill(0)`, which finds slot 1, the first free one. -/
def killZero : List (Fin 2 × Choice NPROC) :=
  List.replicate 5 (0, .go) ++ [(0, .kkill 0), (0, .go), (0, .go)]

theorem kill_zero_marks_unused :
    exists s : Sys NPROC 2, (system NPROC 2).Reachable s ∧ s.births < 2 ^ 31 - 1 ∧
      s.plock 1 = none ∧ (s.procs 1).state = .unused ∧ (s.procs 1).killed = true ∧
      s.stack 0 = .ret 0 ∧
      (allocproc (s.procs 0) (s.procs 1) s.nextpid s.births .ok).killed = true := by
  have hcheck : (System.run (fun s l => Sys.step s l.1 l.2) (fun _ _ => True) (Sys.boot NPROC 2)
      killZero).any (fun s => decide (s.births < 2 ^ 31 - 1 ∧ s.plock 1 = none ∧
        (s.procs 1).state = .unused ∧ (s.procs 1).killed = true ∧ s.stack 0 = .ret 0 ∧
        (allocproc (s.procs 0) (s.procs 1) s.nextpid s.births .ok).killed = true)) = true := by
    decide +kernel
  have hinit : (system NPROC 2).Reachable _ := .init (Sys.booted_boot NPROC 2)
  obtain ⟨s, hreach, hcheck⟩ := hinit.run_any (fun _ _ _ h => h) hcheck
  exact ⟨s, hreach, of_decide_eq_true hcheck⟩

/-!
## The first process

`initproc` cannot get past the first line of `kexit`.  It reaches that line only
if its program calls `exit` or if it is killed.
-/

def Mode.leaving : Mode -> Bool
  | .normal => false
  | .exiting _ _ => true

def WakeKont.leaving : WakeKont -> Bool
  | .client m _ => m.leaving
  | .reparent _ _ => true
  | .exitOwn _ => true

def SleepKont.leaving : SleepKont -> Bool
  | .client m _ => m.leaving
  | .wait _ => false

/-- The points of `kexit` past its first line, and of what it calls. -/
def Pc.leaving : Pc nproc -> Bool
  | .client m _ => m.leaving
  | .wake _ _ k => k.leaving
  | .sleepAcquire _ k => k.leaving
  | .sleepRelease _ k => k.leaving
  | .sleepSet _ k => k.leaving
  | .swtch (.sleep _ k) => k.leaving
  | .swtch (.yield m) => m.leaving
  | .swtch .forkret => false
  | .swtch .dead => true
  | .sleepTidy k => k.leaving
  | .sleepUnlock k => k.leaving
  | .sleepRelock k => k.leaving
  | .yieldAcquire m => m.leaving
  | .yieldSet m => m.leaving
  | .unlock m => m.leaving
  | .exitLock _ => true
  | .reparent _ _ => true
  | .exitOwn _ => true
  | .exitSet _ => true
  | .exitUnlock => true
  | _ => false

theorem Pc.leaving_resume (pc : Pc nproc) : pc.resume.leaving = pc.leaving := by
  cases pc with
  | swtch r => cases r <;> rfl
  | _ => rfl

theorem Code.leaving_eq (h : Code s p ch pc e pc') (hp : p = s.initproc) :
    pc'.leaving = pc.leaving := by
  cases h with
  | wakeDone _ => next k _ => cases k <;> rfl
  | sleepRelock => next k => cases k <;> rfl
  | exit hne => exact absurd hp hne
  | _ => rfl

theorem Code.into_exit {status : Int} (h : Code s p ch pc e pc') (hpc : pc' = .exit status) :
    (s.procs p).killed = true ∨ ch = .kexit status := by
  cases h with
  | wakeDone _ => next k _ => cases k <;> cases hpc
  | sleepRelock => next k => cases k <;> cases hpc
  | dying hk => exact .inl hk
  | kexit hch =>
    cases hpc
    exact .inr hch
  | _ => cases hpc

theorem apply_initproc (s : Sys nproc ncpu) (c : Fin ncpu) (p : Fin nproc) (e : Eff nproc) :
    (s.apply c p e).initproc = s.initproc := by
  cases e <;> rfl

structure InitInv (s : Sys nproc ncpu) : Prop where
  stays : (s.stack s.initproc).leaving = false
  used : (s.procs s.initproc).state ≠ .unused
  birth : (s.procs s.initproc).birth = 0

namespace InitInv

variable {s s' : Sys nproc ncpu} {c : Fin ncpu} {ch : Choice nproc}

theorem move (h : InitInv s) (hsw : SwitchInv s) (hslot : SlotInv s) (hmove : Move s c ch s') :
    InitInv s' ∧ s'.initproc = s.initproc := by
  cases hmove with
  | run p hpt =>
    refine ⟨⟨h.stays, ?_, ?_⟩, rfl⟩
    · change ((s.setProc p _).procs s.initproc).state ≠ .unused
      rcases eq_or_ne s.initproc p with heq | hne
      · rw [heq, Sys.setProc_self]
        exact nofun
      · rw [Sys.setProc_ne _ _ hne]
        exact h.used
    · change ((s.setProc p _).procs s.initproc).birth = 0
      rcases eq_or_ne s.initproc p with heq | hne
      · rw [heq, Sys.setProc_self]
        exact heq ▸ h.birth
      · rw [Sys.setProc_ne _ _ hne]
        exact h.birth
  | switch p hpt =>
    refine ⟨⟨?_, h.used, h.birth⟩, rfl⟩
    change ((s.goto p _).stack s.initproc).leaving = false
    rcases eq_or_ne s.initproc p with heq | hne
    · rw [heq, Sys.goto_self, Pc.leaving_resume, ← heq]
      exact h.stays
    · rw [Sys.goto_ne _ _ hne]
      exact h.stays
  | process p e pc hpt hcode hen =>
    have hinit : ((s.apply c p e).goto p pc).initproc = s.initproc := apply_initproc s c p e
    have hkept : Kept (s.procs s.initproc) ((s.apply c p e).procs s.initproc) := by
      rcases kept_or_moved hsw hslot.bare hpt hcode s.initproc with hk | ⟨r, rfl⟩ | ⟨b, rfl⟩
      · exact hk
      · exact absurd hcode.alloc_unused h.used
      · have hdead := hsw.dead_of_gone hen (.inl hcode.reap_zombie.1)
        have hstays := h.stays
        rw [hdead] at hstays
        cases hstays
    refine ⟨⟨?_, ?_, ?_⟩, hinit⟩
    · rw [hinit]
      rcases eq_or_ne s.initproc p with heq | hne
      · rw [heq, Sys.goto_self, hcode.leaving_eq heq.symm, ← heq]
        exact h.stays
      · rcases after_stack s c e pc hne with hst | ⟨_, hst⟩
        · rw [hst]
          exact h.stays
        · rw [hst]
          rfl
    · rw [hinit]
      exact fun hun => h.used (hkept.unused.1 hun)
    · rw [hinit]
      exact hkept.birth.trans h.birth
  | _ => exact ⟨⟨h.stays, h.used, h.birth⟩, rfl⟩

theorem of_booted (h : s.Booted) : InitInv s where
  stays := by
    rw [h.init_stack]
    rfl
  used := by
    rw [h.init_state]
    decide
  birth := h.init_birth

theorem pid_eq (h : InitInv s) (hslot : SlotInv s) : (s.procs s.initproc).pid = 1 := by
  have hpid := (hslot.born s.initproc h.used).2
  rw [h.birth] at hpid
  exact hpid

end InitInv

/-- The user program of the first process neither calls `exit` nor takes an unexpected trap. -/
def InitLives (s : Sys nproc ncpu) (l : Fin ncpu × Choice nproc) : Prop :=
  (s.cpus l.1).point = .process s.initproc -> l.2.quits = false

def SparesInit (s : Sys nproc ncpu) (l : Fin ncpu × Choice nproc) : Prop :=
  l.2.kills ≠ some (s.procs s.initproc).pid

instance (s : Sys nproc ncpu) (l : Fin ncpu × Choice nproc) : Decidable (InitLives s l) :=
  inferInstanceAs (Decidable (_ -> _))

instance (s : Sys nproc ncpu) (l : Fin ncpu × Choice nproc) : Decidable (SparesInit s l) :=
  inferInstanceAs (Decidable (_ ≠ _))

theorem Code.setkilled_fault (h : Code s p ch pc .setkilled pc') : ch = .fault := by
  cases h with
  | fault hch => exact hch

theorem after_killed
    (hkill : e ≠ .kill q) (hset : q = p -> e ≠ .setkilled) (h : (s.procs q).killed = false) :
    ((s.apply c p e).procs q).killed = false := by
  by_cases ht : e.target p = some q
  · rw [apply_target ht]
    cases e with
    | kill q' =>
      cases ht
      exact absurd rfl hkill
    | setkilled =>
      cases ht
      exact absurd rfl (hset rfl)
    | wake q' chan =>
      simp only [Eff.write, wakeup]
      split <;> exact h
    | alloc q' r => cases r <;> first | rfl | exact h
    | reap q' b => rfl
    | _ => exact h
  · rw [apply_other ht]
    exact h

structure LiveInit (s : Sys nproc ncpu) : Prop where
  killed : (s.procs s.initproc).killed = false
  aim : Aims (fun pid => pid ≠ 1) s
  stays : forall status, s.stack s.initproc ≠ .exit status

theorem LiveInit.move (h : LiveInit s)
    (hsw : SwitchInv s) (hslot : SlotInv s) (hinit : InitInv s) (hlives : InitLives s (c, ch))
    (hspares : SparesInit s (c, ch)) (hmove : Move s c ch s') : LiveInit s' := by
  have haim : Aims (fun pid => pid ≠ 1) s' := by
    refine h.aim.move ?_ hmove
    rintro pid rfl rfl
    exact hspares (congrArg some (hinit.pid_eq hslot).symm)
  have hsame := (hinit.move hsw hslot hmove).2
  cases hmove with
  | run p hpt =>
    refine ⟨?_, haim, h.stays⟩
    change ((s.setProc p _).procs s.initproc).killed = false
    rcases eq_or_ne s.initproc p with heq | hne
    · rw [heq, Sys.setProc_self]
      exact heq ▸ h.killed
    · rw [Sys.setProc_ne _ _ hne]
      exact h.killed
  | switch p hpt =>
    refine ⟨h.killed, haim, ?_⟩
    intro status hst
    change (s.goto p _).stack s.initproc = _ at hst
    rcases eq_or_ne s.initproc p with heq | hne
    · rw [heq, Sys.goto_self, ← heq] at hst
      apply h.stays status
      cases hpc : s.stack s.initproc with
      | swtch r =>
        rw [hpc] at hst
        cases r <;> cases hst
      | _ =>
        rw [hpc] at hst
        exact hst
    · rw [Sys.goto_ne _ _ hne] at hst
      exact h.stays status hst
  | process p e pc hpt hcode hen =>
    refine ⟨?_, haim, ?_⟩
    · rw [hsame]
      refine after_killed ?_ ?_ h.killed
      · rintro rfl
        rcases hcode.kill_aim with ⟨pid, j, hpc, hpid⟩
        exact h.aim p pid j hpc (hpid.symm.trans (hinit.pid_eq hslot))
      · rintro rfl rfl
        have hquits := hlives hpt
        rw [hcode.setkilled_fault] at hquits
        cases hquits
    · intro status hst
      rw [hsame] at hst
      rcases eq_or_ne s.initproc p with heq | hne
      · rw [heq, Sys.goto_self] at hst
        rcases hcode.into_exit hst with hk | hch
        · rw [← heq, h.killed] at hk
          cases hk
        · have hquits := hlives (by rw [heq]; exact hpt)
          rw [hch] at hquits
          cases hquits
      · rcases after_stack s c e pc hne with heq | ⟨_, hnew⟩
        · rw [heq] at hst
          exact h.stays status hst
        · rw [hnew] at hst
          cases hst
  | _ => exact ⟨h.killed, haim, h.stays⟩

/-- The first process never reaches `kexit`, and stays there for the orphans. -/
theorem init_survives {s : Sys nproc ncpu}
    (h : (system nproc ncpu).ReachableVia (fun s l => InitLives s l ∧ SparesInit s l) s) :
    (forall status, s.stack s.initproc ≠ .exit status) ∧
      (s.procs s.initproc).state ≠ .unused ∧ (s.procs s.initproc).state ≠ .zombie := by
  have hall : SwitchInv s ∧ SlotInv s ∧ InitInv s ∧ LiveInit s := by
    refine h.invariant (I := fun s => SwitchInv s ∧ SlotInv s ∧ InitInv s ∧ LiveInit s) ?_ ?_
    · intro s hs
      refine ⟨SwitchInv.of_booted hs, SlotInv.of_booted hs, InitInv.of_booted hs, hs.init_killed,
        aims_of_booted hs, ?_⟩
      intro status hst
      rw [hs.init_stack] at hst
      cases hst
    · rintro s ⟨c, ch⟩ s' ⟨hsw, hslot, hinit, hlive⟩ ⟨hlives, hspares⟩ hstep
      have hmove := step_move hstep
      exact ⟨hsw.move hmove, hslot.move hsw hmove, (hinit.move hsw hslot hmove).1,
        hlive.move hsw hslot hinit hlives hspares hmove⟩
  rcases hall with ⟨hsw, _, hinit, hlive⟩
  refine ⟨hlive.stays, hinit.used, ?_⟩
  intro hzombie
  have hstays := hinit.stays
  rcases hsw.zombie_stack hzombie with hst | hst <;> rw [hst] at hstays <;> cases hstays

/-- The first process kills its child, which finds that out and calls `kexit`. -/
def killChild : List (Fin 2 × Choice NPROC) :=
  bothRun ++ [(0, .kkill 2), (0, .go), (0, .go), (0, .go), (1, .check)]

theorem init_survives_kill :
    exists s : Sys NPROC 2,
      (system NPROC 2).ReachableVia (fun s l => InitLives s l ∧ SparesInit s l) s ∧
      (s.procs 1).killed = true ∧ s.stack 1 = .exit (-1) ∧
      (forall status, s.stack s.initproc ≠ .exit status) ∧
      (s.procs s.initproc).state ≠ .unused ∧ (s.procs s.initproc).state ≠ .zombie := by
  have hcheck : (System.run (fun s l => Sys.step s l.1 l.2)
      (fun s l => InitLives s l ∧ SparesInit s l) (Sys.boot NPROC 2) killChild).any (fun s =>
        decide ((s.procs 1).killed = true ∧ s.stack 1 = .exit (-1))) = true := by
    decide +kernel
  have hinit : (system NPROC 2).ReachableVia (fun s l => InitLives s l ∧ SparesInit s l) _ :=
    .init (Sys.booted_boot NPROC 2)
  obtain ⟨s, hreach, hcheck⟩ := hinit.run_any (fun _ _ _ h => h) hcheck
  rcases of_decide_eq_true hcheck with ⟨hkilled, hexit⟩
  exact ⟨s, hreach, hkilled, hexit, init_survives hreach⟩

/-- The first process forks.  The child kills it, and on its next trap it calls `kexit`. -/
def killInit : List (Fin 2 × Choice NPROC) :=
  bothRun ++ [(1, .kkill 1), (1, .go), (0, .check)]

theorem killed_init_exits :
    exists s : Sys NPROC 2, (system NPROC 2).ReachableVia InitLives s ∧
      s.stack s.initproc = .exit (-1) := by
  have hcheck : (System.run (fun s l => Sys.step s l.1 l.2) InitLives (Sys.boot NPROC 2)
      killInit).any (fun s => decide (s.stack s.initproc = .exit (-1))) = true := by
    decide +kernel
  have hinit : (system NPROC 2).ReachableVia InitLives _ := .init (Sys.booted_boot NPROC 2)
  obtain ⟨s, hreach, hcheck⟩ := hinit.run_any (fun _ _ _ h => h) hcheck
  exact ⟨s, hreach, of_decide_eq_true hcheck⟩

end Sched
end Xv6
