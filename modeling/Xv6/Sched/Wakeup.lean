import Xv6.Sched.Switch

/-!
# No lost wakeup

`sleep` locks the entry of its process before it releases the condition lock, so
a scan by `wakeup` that starts later finds either the sleeping process or a
locked entry.
-/

namespace Xv6
namespace Sched

open Function

variable {nproc ncpu : Nat}

variable {p q : Fin nproc} {ch : Choice nproc} {e : Eff nproc} {pc : Pc nproc} {s : Sys nproc ncpu}
variable {l : Lk}

/-!
## Condition locks

Which of the locks other than `p->lock` a thread holds can be read off its point.
-/

def WakeKont.Holds (l : Lk) : WakeKont -> Prop
  | .client _ held => exists n, n ∈ held ∧ l = .other n
  | .reparent _ _ => l = .wait
  | .exitOwn _ => l = .wait

def Pc.Holds (l : Lk) : Pc nproc -> Prop
  | .client _ held => exists n, n ∈ held ∧ l = .other n
  | .wake _ _ k => k.Holds l
  | .sleepAcquire _ k => l = k.lk
  | .sleepRelease _ k => l = k.lk
  | .reparent _ _ => l = .wait
  | .exitOwn _ => l = .wait
  | .exitSet _ => l = .wait
  | .exitUnlock => l = .wait
  | .waitScan _ _ _ => l = .wait
  | .waitRet _ => l = .wait
  | _ => False

theorem WakeKont.holds_pc (k : WakeKont) (l : Lk) :
    (k.pc : Pc nproc).Holds l <-> k.Holds l := by
  cases k <;> rfl

theorem SleepKont.holds_pc (k : SleepKont) (l : Lk) :
    (k.pc : Pc nproc).Holds l <-> l = k.lk := by
  cases k with
  | client m n => simp [SleepKont.pc, Pc.Holds, SleepKont.lk]
  | wait addr => rfl

theorem Pc.holds_resume (pc : Pc nproc) (l : Lk) : pc.resume.Holds l <-> pc.Holds l := by
  cases pc with
  | swtch r => cases r <;> rfl
  | _ => rfl

def Eff.LockFlow (pc pc' : Pc nproc) : Eff nproc -> Prop
  | .acquire l => forall l', pc'.Holds l' <-> l' = l ∨ pc.Holds l'
  | .release l => forall l', pc'.Holds l' <-> l' ≠ l ∧ pc.Holds l'
  | _ => forall l', pc'.Holds l' <-> pc.Holds l'

theorem Code.lockFlow {pc' : Pc nproc} (h : Code s p ch pc e pc') : e.LockFlow pc pc' := by
  cases h with
  | acquire hn =>
    intro l
    simp only [Pc.Holds, List.mem_cons]
    constructor
    · rintro ⟨n, rfl | hn, rfl⟩
      · exact .inl rfl
      · exact .inr ⟨n, hn, rfl⟩
    · rintro (rfl | ⟨n, hn, rfl⟩)
      · exact ⟨_, .inl rfl, rfl⟩
      · exact ⟨n, .inr hn, rfl⟩
  | release hn =>
    intro l
    simp only [Pc.Holds, List.mem_filter, decide_eq_true_eq]
    constructor
    · rintro ⟨n, ⟨hn, hne⟩, rfl⟩
      exact ⟨fun heq => hne (Lk.other.inj heq), n, hn, rfl⟩
    · rintro ⟨hne, n, hn, rfl⟩
      exact ⟨n, ⟨hn, fun heq => hne (congrArg Lk.other heq)⟩, rfl⟩
  | wakeDone _ => next k _ => exact fun l => k.holds_pc l
  | sleepRelock =>
    next k =>
    intro l
    rw [k.holds_pc]
    simp [Pc.Holds]
  | sleepRelease =>
    intro l
    simp [Pc.Holds]
  | _ =>
    intro l
    simp [Pc.Holds, SleepKont.lk, WakeKont.Holds]

theorem Code.release_holds {pc' : Pc nproc} (h : Code s p ch pc (.release l) pc') : pc.Holds l := by
  cases h with
  | release hn => exact ⟨_, hn, rfl⟩
  | sleepRelease => rfl
  | exitUnlock => rfl
  | waitRet => rfl

theorem after_stack (s : Sys nproc ncpu) (c : Fin ncpu) (e : Eff nproc)
    (pc : Pc nproc) (hq : q ≠ p) :
    ((s.apply c p e).goto p pc).stack q = s.stack q ∨
      (e = .alloc q .ok ∧ ((s.apply c p e).goto p pc).stack q = .swtch .forkret) := by
  rw [Sys.goto_ne _ _ hq]
  cases e with
  | alloc q' r =>
    simp only [Sys.apply]
    split
    · next hr =>
        subst hr
        rcases eq_or_ne q q' with rfl | hne
        · exact .inr ⟨rfl, update_self _ _ _⟩
        · exact .inl (update_of_ne hne _ _)
    · exact .inl rfl
  | _ => exact .inl rfl

def LockInv (s : Sys nproc ncpu) : Prop :=
  forall l p, s.locks l = some p <-> (s.stack p).Holds l

namespace LockInv

variable {s : Sys nproc ncpu} {c : Fin ncpu} {p : Fin nproc}

theorem unique (h : LockInv s) (hp : (s.stack p).Holds l) (hq : (s.stack q).Holds l) : p = q := by
  rw [← h] at hp hq
  rw [hp] at hq
  exact Option.some.inj hq

theorem process (h : LockInv s) (hsw : SwitchInv s)
    (hcode : Code s p ch (s.stack p) e pc) (hen : s.Enabled p e) :
    LockInv ((s.apply c p e).goto p pc) := by
  have hflow := hcode.lockFlow
  have hstack : forall q, q ≠ p -> forall l,
      (((s.apply c p e).goto p pc).stack q).Holds l <-> (s.stack q).Holds l := by
    intro q hq l
    rcases after_stack s c e pc hq with heq | ⟨rfl, hnew⟩
    · rw [heq]
    · have hrun : (s.procs q).state ≠ .running := by
        rw [hcode.alloc_unused]
        decide
      rcases hsw.off q (hsw.not_engaged hen hrun) with ⟨_, r, hr, _⟩
      rw [hnew, hr]
      rfl
  have hkeep : (forall l, pc.Holds l <-> (s.stack p).Holds l) ->
      (s.apply c p e).locks = s.locks -> LockInv ((s.apply c p e).goto p pc) := by
    intro hpc hlocks l q
    change (s.apply c p e).locks l = some q <-> _
    rw [hlocks, h l q]
    rcases eq_or_ne q p with rfl | hq
    · rw [Sys.goto_self, hpc]
    · rw [hstack q hq]
  cases e with
  | acquire l =>
    intro l' q
    change update s.locks l (some p) l' = some q <-> _
    rcases eq_or_ne q p with rfl | hq
    · rw [Sys.goto_self, hflow l', ← h l' q]
      rcases eq_or_ne l' l with rfl | hl
      · simp
      · simp [hl]
    · rw [hstack q hq, ← h l' q]
      rcases eq_or_ne l' l with rfl | hl
      · have hnone : s.locks l' = none := hen
        simp [hnone, Ne.symm hq]
      · simp [hl]
  | release l =>
    have hmine : s.locks l = some p := (h l p).2 hcode.release_holds
    intro l' q
    change update s.locks l none l' = some q <-> _
    rcases eq_or_ne q p with rfl | hq
    · rw [Sys.goto_self, hflow l', ← h l' q]
      rcases eq_or_ne l' l with rfl | hl
      · simp
      · simp [hl]
    · rw [hstack q hq, ← h l' q]
      rcases eq_or_ne l' l with rfl | hl
      · simp [hmine, Ne.symm hq]
      · simp [hl]
  | _ => exact hkeep hflow rfl

theorem move (h : LockInv s) (hsw : SwitchInv s) {s' : Sys nproc ncpu}
    (hmove : Move s c ch s') : LockInv s' := by
  cases hmove with
  | switch p hpt =>
    intro l q
    change s.locks l = some q <-> ((s.goto p _).stack q).Holds l
    rcases eq_or_ne q p with rfl | hq
    · rw [Sys.goto_self, Pc.holds_resume]
      exact h l q
    · rw [Sys.goto_ne _ _ hq]
      exact h l q
  | process p e pc hpt hcode hen => exact h.process hsw hcode hen
  | _ => exact h

theorem of_booted (h : s.Booted) : LockInv s := by
  intro l p
  rcases eq_or_ne p s.initproc with rfl | hp
  · simp [h.locks l, h.init_stack, Pc.Holds]
  · simp [h.locks l, h.stack p hp, Pc.Holds]

end LockInv

/-!
## Sleepers and scans

A process is committed to a channel from the moment `sleep` has released the
condition lock until it is made runnable.
-/

def Committed (s : Sys nproc ncpu) (p : Fin nproc) (chan : Chan nproc) (l : Lk) : Prop :=
  exists k, k.lk = l ∧ (s.stack p = .sleepSet chan k ∨
    (s.stack p = .swtch (.sleep chan k) ∧ (s.procs p).state = .sleeping))

structure WakeInv (s : Sys nproc ncpu) : Prop where
  chan : forall p chan k, s.stack p = .swtch (.sleep chan k) -> (s.procs p).chan = chan
  ahead : forall q chan j k l p, s.stack q = .wake chan j k -> k.Holds l ->
    Committed s p chan l -> j <= p

theorem after_sleeping {c : Fin ncpu}
    (hq : q ≠ p) (h : ((s.apply c p e).procs q).state = .sleeping) :
    (s.procs q).state = .sleeping := by
  by_cases ht : e.target p = some q
  · rw [apply_target ht] at h
    cases e with
    | wake q' chan =>
      simp only [Eff.write, wakeup] at h
      split at h
      · cases h
      · exact h
    | kill q' =>
      simp only [Eff.write, kkill] at h
      split at h
      · cases h
      · exact h
    | adopt q' => exact h
    | father q' => exact h
    | alloc q' r => cases r <;> cases h
    | ready q' => cases h
    | reap q' copied => cases h
    | _ => cases ht <;> exact absurd rfl hq
  · rw [apply_other ht] at h
    exact h

theorem after_chan {c : Fin ncpu}
    (hq : q ≠ p) (hreap : forall b, e ≠ .reap q b) (halloc : forall r, e ≠ .alloc q r) :
    ((s.apply c p e).procs q).chan = (s.procs q).chan := by
  by_cases ht : e.target p = some q
  · rw [apply_target ht]
    cases e with
    | wake q' chan =>
      simp only [Eff.write, wakeup]
      split <;> rfl
    | kill q' => rfl
    | adopt q' => rfl
    | father q' => rfl
    | ready q' => rfl
    | alloc q' r =>
      cases ht
      exact absurd rfl (halloc r)
    | reap q' copied =>
      cases ht
      exact absurd rfl (hreap copied)
    | _ => cases ht <;> exact absurd rfl hq
  · rw [apply_other ht]

section

variable {s : Sys nproc ncpu} {p : Fin nproc} {ch : Choice nproc} {e : Eff nproc}
  {pc pc' : Pc nproc} {chan : Chan nproc}

theorem Code.into_sleep {k : SleepKont} (h : Code s p ch pc e pc') :
    (pc' = .sleepSet chan k -> pc = .sleepRelease chan k) ∧
    (pc' = .swtch (.sleep chan k) ->
      (pc = .sleepSet chan k ∧ e = .sleep chan) ∨ (pc = pc' ∧ e = .swtch)) := by
  cases h with
  | wakeDone _ => next k' _ => cases k' <;> exact ⟨nofun, nofun⟩
  | sleepRelock => next k' => cases k' <;> exact ⟨nofun, nofun⟩
  | sleepRelease =>
    refine ⟨fun h => ?_, nofun⟩
    cases h
    rfl
  | sleepSet =>
    refine ⟨nofun, fun h => ?_⟩
    cases h
    exact .inl ⟨rfl, rfl⟩
  | swtch => exact ⟨nofun, fun _ => .inr ⟨rfl, rfl⟩⟩
  | _ => exact ⟨nofun, nofun⟩

theorem Code.into_wake {j : Nat} {k : WakeKont} (h : Code s p ch pc e pc')
    (hpc : pc' = .wake chan j k) :
    j = 0 ∨ (j = p + 1 ∧ pc = .wake chan p k) ∨
      exists q, q ≠ p ∧ j = q + 1 ∧ pc = .wake chan q k ∧ e = .wake q chan := by
  cases h with
  | wakeDone _ => next k' _ => cases k' <;> cases hpc
  | sleepRelock => next k' => cases k' <;> cases hpc
  | wakeSkip =>
    cases hpc
    exact .inr (.inl ⟨rfl, rfl⟩)
  | wakeVisit hq =>
    cases hpc
    exact .inr (.inr ⟨_, hq, rfl, rfl, rfl⟩)
  | wakeup =>
    cases hpc
    exact .inl rfl
  | reparentHit _ =>
    cases hpc
    exact .inl rfl
  | reparentDone _ =>
    cases hpc
    exact .inl rfl
  | _ => cases hpc

end

namespace WakeInv

variable {s : Sys nproc ncpu} {c : Fin ncpu} {p : Fin nproc}

theorem committed_before (hcode : Code s p ch (s.stack p) e pc) {chan : Chan nproc}
    (h : Committed ((s.apply c p e).goto p pc) q chan l) :
    Committed s q chan l ∨
      (q = p ∧ exists k, k.lk = l ∧ s.stack p = .sleepRelease chan k) := by
  rcases h with ⟨k, hk, hset | ⟨hswtch, hstate⟩⟩
  · rcases eq_or_ne q p with rfl | hq
    · rw [Sys.goto_self] at hset
      exact .inr ⟨rfl, k, hk, hcode.into_sleep.1 hset⟩
    · rcases after_stack s c e pc hq with heq | ⟨_, hnew⟩
      · rw [heq] at hset
        exact .inl ⟨k, hk, .inl hset⟩
      · rw [hnew] at hset
        cases hset
  · change ((s.apply c p e).procs q).state = .sleeping at hstate
    rcases eq_or_ne q p with rfl | hq
    · rw [Sys.goto_self] at hswtch
      rcases hcode.into_sleep.2 hswtch with ⟨hold, _⟩ | ⟨hold, rfl⟩
      · exact .inl ⟨k, hk, .inl hold⟩
      · exact .inl ⟨k, hk, .inr ⟨hold.trans hswtch, hstate⟩⟩
    · rcases after_stack s c e pc hq with heq | ⟨_, hnew⟩
      · rw [heq] at hswtch
        exact .inl ⟨k, hk, .inr ⟨hswtch, after_sleeping hq hstate⟩⟩
      · rw [hnew] at hswtch
        cases hswtch

theorem not_committed_of_visit (h : WakeInv s) (hsw : SwitchInv s)
    {chan : Chan nproc} (hq : q ≠ p) (hfree : s.plock q = none) :
    ¬ Committed ((s.apply c p (.wake q chan)).goto p pc) q chan l := by
  rintro ⟨k, _, hset | ⟨hswtch, hstate⟩⟩
  · -- between the release of the condition lock and the switch the entry is locked
    have hold : s.stack q = .sleepSet chan k := by
      rw [Sys.goto_ne _ _ hq] at hset
      exact hset
    by_cases hc : exists d, (s.cpus d).point.engaged = some q
    · rcases hc with ⟨d, hd⟩
      have hon := hsw.on d q hd
      rw [(hsw.process_of_free hd hfree).1, hold, hfree] at hon
      cases hon.1
    · rcases hsw.off q fun d hd => hc ⟨d, hd⟩ with ⟨_, r, hr, _⟩
      rw [hold] at hr
      cases hr
  · rw [Sys.goto_ne _ _ hq] at hswtch
    change ((s.apply c p (.wake q chan)).procs q).state = .sleeping at hstate
    have hsleep := after_sleeping hq hstate
    have hchan := h.chan q chan k hswtch
    rw [apply_target rfl] at hstate
    simp [Eff.write, wakeup, hsleep, hchan] at hstate

theorem process (h : WakeInv s) (hsw : SwitchInv s) (hlk : LockInv s)
    (hcode : Code s p ch (s.stack p) e pc)
    (hen : s.Enabled p e) : WakeInv ((s.apply c p e).goto p pc) := by
  constructor
  · intro q chan k hq
    change ((s.apply c p e).procs q).chan = chan
    rcases eq_or_ne q p with rfl | hne
    · rw [Sys.goto_self] at hq
      rcases hcode.into_sleep.2 hq with ⟨_, rfl⟩ | ⟨hold, rfl⟩
      · rw [apply_target rfl]
        rfl
      · exact h.chan q chan k (hold.trans hq)
    · rcases after_stack s c e pc hne with heq | ⟨_, hnew⟩
      · rw [heq] at hq
        rw [after_chan hne]
        · exact h.chan q chan k hq
        · rintro b rfl
          rw [hsw.dead_of_gone hen (.inl hcode.reap_zombie.1)] at hq
          cases hq
        · rintro r rfl
          rw [hsw.dead_of_gone hen (.inr hcode.alloc_unused)] at hq
          cases hq
      · rw [hnew] at hq
        cases hq
  · intro q chan j k l v hq hk hv
    -- the only new sleeper holds the lock that the scan holds
    have hold : (s.stack q).Holds l -> Committed s v chan l := by
      intro hheld
      rcases committed_before hcode hv with hv' | ⟨rfl, k', rfl, hrel⟩
      · exact hv'
      · have hmine : (s.stack v).Holds k'.lk := by
          rw [hrel]
          rfl
        have heq := hlk.unique hheld hmine
        subst heq
        rw [Sys.goto_self] at hq
        rw [hrel, hq] at hcode
        cases hcode
    rcases eq_or_ne q p with rfl | hne
    · rw [Sys.goto_self] at hq
      rcases hcode.into_wake hq with rfl | ⟨rfl, hpc⟩ | ⟨w, hw, rfl, hpc, rfl⟩
      · exact Nat.zero_le _
      · have hcom := hold (by rw [hpc]; exact hk)
        have hle := h.ahead q chan q k l v hpc hk hcom
        have hvq : v ≠ q := by
          rintro rfl
          rcases hcom with ⟨k', _, hset | ⟨hset, _⟩⟩ <;> rw [hpc] at hset <;> cases hset
        have hval : (v : Nat) ≠ q := fun heq => hvq (Fin.ext heq)
        omega
      · have hcom := hold (by rw [hpc]; exact hk)
        have hle := h.ahead q chan w k l v hpc hk hcom
        have hvw : v ≠ w := by
          rintro rfl
          exact h.not_committed_of_visit hsw hw hen hv
        have hval : (v : Nat) ≠ w := fun heq => hvw (Fin.ext heq)
        omega
    · rcases after_stack s c e pc hne with heq | ⟨_, hnew⟩
      · rw [heq] at hq
        exact h.ahead q chan j k l v hq hk (hold (by rw [hq]; exact hk))
      · rw [hnew] at hq
        cases hq

theorem move (h : WakeInv s) (hsw : SwitchInv s) (hlk : LockInv s)
    {s' : Sys nproc ncpu} (hmove : Move s c ch s') : WakeInv s' := by
  cases hmove with
  | run p hpt =>
    have hback : forall q chan l,
        Committed ((s.setProc p { s.procs p with state := .running }).setPoint c (.chosen p))
          q chan l -> Committed s q chan l := by
      rintro q chan l ⟨k, hk, hset | ⟨hswtch, hstate⟩⟩
      · exact ⟨k, hk, .inl hset⟩
      · refine ⟨k, hk, .inr ⟨hswtch, ?_⟩⟩
        change ((s.setProc p _).procs q).state = .sleeping at hstate
        rcases eq_or_ne q p with rfl | hq
        · rw [Sys.setProc_self] at hstate
          cases hstate
        · rw [Sys.setProc_ne _ _ hq] at hstate
          exact hstate
    constructor
    · intro q chan k hq
      change ((s.setProc p _).procs q).chan = chan
      rcases eq_or_ne q p with rfl | hne
      · rw [Sys.setProc_self]
        exact h.chan q chan k hq
      · rw [Sys.setProc_ne _ _ hne]
        exact h.chan q chan k hq
    · intro q chan j k l v hq hk hv
      exact h.ahead q chan j k l v hq hk (hback v chan l hv)
  | switch p hpt =>
    have hon := hsw.on c p (by rw [hpt]; rfl)
    rw [hpt] at hon
    rcases hon with ⟨_, _, r, hr, hdead⟩
    have hresume : forall pc : Pc nproc, (s.stack p).resume = pc ->
        (forall chan j k, pc ≠ .wake chan j k) ∧ (forall chan k, pc ≠ .sleepSet chan k) ∧
        forall chan k, pc ≠ .swtch (.sleep chan k) := by
      rintro pc rfl
      rw [hr]
      cases r with
      | dead => exact absurd rfl hdead
      | _ => exact ⟨nofun, nofun, nofun⟩
    rcases hresume _ rfl with ⟨hwake, hset, hsleep⟩
    constructor
    · intro q chan k hq
      change (s.goto p _).stack q = _ at hq
      rcases eq_or_ne q p with rfl | hne
      · rw [Sys.goto_self] at hq
        exact absurd hq (hsleep chan k)
      · rw [Sys.goto_ne _ _ hne] at hq
        exact h.chan q chan k hq
    · intro q chan j k l v hq hk hv
      change (s.goto p _).stack q = _ at hq
      rcases eq_or_ne q p with rfl | hne
      · rw [Sys.goto_self] at hq
        exact absurd hq (hwake chan j k)
      · rw [Sys.goto_ne _ _ hne] at hq
        refine h.ahead q chan j k l v hq hk ?_
        rcases hv with ⟨k', hk', hv⟩
        change (s.goto p _).stack v = _ ∨ (s.goto p _).stack v = _ ∧ _ at hv
        rcases eq_or_ne v p with rfl | hvp
        · rw [Sys.goto_self] at hv
          rcases hv with hv | ⟨hv, _⟩
          · exact absurd hv (hset chan k')
          · exact absurd hv (hsleep chan k')
        · rw [Sys.goto_ne _ _ hvp] at hv
          exact ⟨k', hk', hv⟩
  | process p e pc hpt hcode hen => exact h.process hsw hlk hcode hen
  | _ => exact ⟨h.chan, h.ahead⟩

theorem of_booted (h : s.Booted) : WakeInv s := by
  have hstack : forall q, s.stack q = .swtch .forkret ∨ s.stack q = .swtch .dead := by
    intro q
    rcases eq_or_ne q s.initproc with rfl | hq
    · exact .inl h.init_stack
    · exact .inr (h.stack q hq)
  constructor
  · intro q chan k hq
    rcases hstack q with heq | heq <;> rw [heq] at hq <;> cases hq
  · intro q chan j k l v hq
    rcases hstack q with heq | heq <;> rw [heq] at hq <;> cases hq

end WakeInv

theorem wakeInv_reachable {ok : Sys nproc ncpu -> _ -> Prop}
    (h : (system nproc ncpu).ReachableVia ok s) : SwitchInv s ∧ LockInv s ∧ WakeInv s := by
  refine h.invariant (I := fun s => SwitchInv s ∧ LockInv s ∧ WakeInv s) ?_ ?_
  · intro s hs
    exact ⟨SwitchInv.of_booted hs, LockInv.of_booted hs, WakeInv.of_booted hs⟩
  · rintro s l s' ⟨hsw, hlk, hwk⟩ _ hstep
    have hmove := step_move hstep
    exact ⟨hsw.move hmove, hlk.move hsw hmove, hwk.move hsw hlk hmove⟩

/-!
## The end of a scan

Process `q` holds the condition lock `l` and its `wakeup(chan)` has visited every
slot.  Whoever released `l` inside `sleep(chan, l)` did so before `q` took it;
none of these calls has its process asleep any more, or about to fall asleep.
-/

theorem no_lost_wakeup {s : Sys nproc ncpu} (h : (system nproc ncpu).Reachable s)
    {q : Fin nproc} {chan : Chan nproc} {k : WakeKont} {l : Lk}
    (hdone : s.stack q = .wake chan nproc k) (hheld : s.locks l = some q) (p : Fin nproc)
    (call : SleepKont) (hcall : call.lk = l) :
    s.stack p ≠ .sleepSet chan call ∧
      (s.stack p = .swtch (.sleep chan call) -> (s.procs p).state ≠ .sleeping) := by
  rcases wakeInv_reachable h with ⟨_, hlk, hwk⟩
  have hk : k.Holds l := by
    have hq := (hlk l q).1 hheld
    rw [hdone] at hq
    exact hq
  have hnot : ¬ Committed s p chan l := by
    intro hcom
    have hle := hwk.ahead q chan nproc k l p hdone hk hcom
    have hlt := p.isLt
    omega
  constructor
  · intro hset
    exact hnot ⟨call, hcall, .inl hset⟩
  · intro hswtch hsleep
    exact hnot ⟨call, hcall, .inr ⟨hswtch, hsleep⟩⟩

/-- The first process forks; its child sleeps on channel 5 with lock 3 on CPU 1; the parent takes
the lock and wakes it. -/
def sleepAndWake : List (Fin 2 × Choice 2) :=
  List.replicate 5 (0, .go) ++
  [(0, .kfork), (0, .go), (0, .alloc .ok), (0, .go), (0, .go), (0, .go)] ++
  List.replicate 6 (1, .go) ++
  [(1, .acquire 3), (1, .sleep (.addr 5) 3), (1, .go), (1, .go), (1, .go), (1, .go), (1, .go),
    (1, .go)] ++
  [(0, .acquire 3), (0, .wakeup (.addr 5)), (0, .go), (0, .go)]

theorem no_lost_wakeup_child :
    exists s : Sys 2 2, (system 2 2).Reachable s ∧
      s.stack 0 = .wake (.addr 5) 2 (.client .normal [3]) ∧ s.locks (.other 3) = some 0 ∧
      s.stack 1 = .swtch (.sleep (.addr 5) (.client .normal 3)) ∧
      (s.procs 1).state ≠ .sleeping := by
  have hcheck : (Lib.System.run (fun s l => Sys.step s l.1 l.2) (fun _ _ => True) (Sys.boot 2 2)
      sleepAndWake).any (fun s => decide (s.stack 0 = .wake (.addr 5) 2 (.client .normal [3]) ∧
        s.locks (.other 3) = some 0 ∧
        s.stack 1 = .swtch (.sleep (.addr 5) (.client .normal 3)))) = true := by
    decide +kernel
  have hinit : (system 2 2).Reachable _ := .init (Sys.booted_boot 2 2)
  obtain ⟨s, hreach, hcheck⟩ := hinit.run_any (fun _ _ _ h => h) hcheck
  rcases of_decide_eq_true hcheck with ⟨hdone, hheld, hchild⟩
  have hawake := (no_lost_wakeup hreach hdone hheld 1 (.client .normal 3) rfl).2 hchild
  exact ⟨s, hreach, hdone, hheld, hchild, hawake⟩

end Sched
end Xv6
