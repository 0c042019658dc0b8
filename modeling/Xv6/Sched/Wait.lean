import Xv6.Sched.Kill

/-!
# Exit and wait

What `kexit` leaves for the parent and what `kwait` makes of it.  A process is
freed once, by the parent it had when it became a zombie or by the one that
inherited it, and no parent sleeps in `kwait` beside a zombie.
-/

namespace Xv6
namespace Sched

variable {nproc ncpu : Nat}

variable {q v : Fin nproc} {s s' : Sys nproc ncpu} {pc : Pc nproc}

/-!
## Zombies

An entry becomes a zombie by the last action of its own process and stays one,
with the same status, until `kwait` frees it.
-/

def Eff.settles : Eff nproc -> Bool
  | .sleep _ => true
  | .giveUp => true
  | .zombie _ => true
  | _ => false

section

variable {s : Sys nproc ncpu} {c : Fin ncpu} {p q : Fin nproc} {ch : Choice nproc}
  {e : Eff nproc} {pc pc' : Pc nproc}

theorem Code.settles_running (h : Code s p ch pc e pc') (he : e.settles = true) :
    pc.state = .running := by
  cases h with
  | sleepSet => rfl
  | yieldSet => rfl
  | exitSet => rfl
  | _ => cases he

theorem SwitchInv.settles_running (hsw : SwitchInv s) (hp : (s.cpus c).point = .process p)
    (hcode : Code s p ch (s.stack p) e pc') (he : e.settles = true) :
    (s.procs p).state = .running := by
  have hon := hsw.on c p (by rw [hp]; rfl)
  rw [hp] at hon
  exact hon.2.trans (hcode.settles_running he)

theorem after_zombie (hsw : SwitchInv s) (hp : (s.cpus c).point = .process p)
    (hcode : Code s p ch (s.stack p) e pc') (hexit : forall status, q = p -> e ≠ .zombie status)
    (hreap : forall b, e ≠ .reap q b) :
    (((s.apply c p e).procs q).state = .zombie <-> (s.procs q).state = .zombie) ∧
      ((s.procs q).state = .zombie ->
        ((s.apply c p e).procs q).xstate = (s.procs q).xstate) := by
  have hchild := hsw.child p
  by_cases ht : e.target p = some q
  · rw [apply_target ht]
    cases e with
    | wake q' chan =>
      simp only [Eff.write, wakeup]
      split
      · next hsleep => simp [hsleep.1]
      · exact ⟨Iff.rfl, fun _ => rfl⟩
    | kill q' =>
      refine ⟨?_, fun _ => rfl⟩
      simp only [Eff.write, kkill]
      split
      · next hsleep => simp [hsleep]
      · exact Iff.rfl
    | sleep chan =>
      cases ht
      simp [Eff.write, hsw.settles_running hp hcode rfl]
    | giveUp =>
      cases ht
      simp [Eff.write, hsw.settles_running hp hcode rfl]
    | zombie status =>
      cases ht
      exact absurd rfl (hexit status rfl)
    | alloc q' r =>
      cases ht
      have hunused := hcode.alloc_unused
      cases r <;> simp [Eff.write, allocproc, freeproc, hunused]
    | ready q' =>
      cases ht
      rcases hcode.flow with ⟨pid, hpc, _⟩
      have hstate : (s.procs q).state = .used := hchild q (by rw [hpc]; rfl)
      simp [Eff.write, hstate]
    | reap q' b =>
      cases ht
      exact absurd rfl (hreap b)
    | _ => exact ⟨Iff.rfl, fun _ => rfl⟩
  · rw [apply_other ht]
    exact ⟨Iff.rfl, fun _ => rfl⟩

end

/-!
## The records of exits and reaps
-/

def Proc.exited (x : Proc nproc) : Exit :=
  {
    birth := x.birth
    pid := x.pid
    status := x.xstate
  }

structure ExitInv (s : Sys nproc ncpu) : Prop where
  recorded : forall q, (s.procs q).state = .zombie -> (s.procs q).exited ∈ s.exits
  gone : forall x, x ∈ s.exits -> x.birth < s.births ∧
    forall q, (s.procs q).state ≠ .unused -> (s.procs q).birth = x.birth ->
      (s.procs q).state = .zombie
  once : (s.exits.map Exit.birth).Nodup
  right : forall r, r ∈ s.reaps -> r.entry.state = .zombie ∧ r.entry.parent = some r.caller ∧
    r.returned = r.entry.pid ∧ (forall status, r.status = some status ->
      status = r.entry.xstate) ∧ r.entry.exited ∈ s.exits
  freed : forall r, r ∈ s.reaps -> forall q, (s.procs q).state ≠ .unused ->
    (s.procs q).birth ≠ r.entry.birth
  reaped_once : (s.reaps.map fun r => r.entry.birth).Nodup

namespace ExitInv

variable {s : Sys nproc ncpu} {c : Fin ncpu} {p : Fin nproc} {ch : Choice nproc}

theorem of_silent (h : ExitInv s) (hexits : s'.exits = s.exits)
    (hreaps : s'.reaps = s.reaps) (hbirths : s.births <= s'.births)
    (hzombie : forall q, (s'.procs q).state = .zombie -> (s.procs q).state = .zombie ∧
      (s'.procs q).birth = (s.procs q).birth ∧ (s'.procs q).pid = (s.procs q).pid ∧
      (s'.procs q).xstate = (s.procs q).xstate)
    (hused : forall q, (s'.procs q).state ≠ .unused -> (s'.procs q).birth = s.births ∨
      ((s.procs q).state ≠ .unused ∧ (s'.procs q).birth = (s.procs q).birth ∧
        ((s.procs q).state = .zombie -> (s'.procs q).state = .zombie))) : ExitInv s' := by
  constructor
  · intro q hq
    rcases hzombie q hq with ⟨hold, hbirth, hpid, hxstate⟩
    rw [hexits, Proc.exited, hbirth, hpid, hxstate]
    exact h.recorded q hold
  · intro x hx
    rw [hexits] at hx
    rcases h.gone x hx with ⟨hlt, hgone⟩
    refine ⟨Nat.lt_of_lt_of_le hlt hbirths, ?_⟩
    intro q hq heq
    rcases hused q hq with hnew | ⟨hold, hbirth, hstays⟩
    · omega
    · exact hstays (hgone q hold (hbirth.symm.trans heq))
  · rw [hexits]
    exact h.once
  · intro r hr
    rw [hreaps] at hr
    rw [hexits]
    exact h.right r hr
  · intro r hr q hq heq
    rw [hreaps] at hr
    rcases hused q hq with hnew | ⟨hold, hbirth, _⟩
    · have hlt : r.entry.birth < s.births := (h.gone _ (h.right r hr).2.2.2.2).1
      omega
    · exact h.freed r hr q hold (hbirth.symm.trans heq)
  · rw [hreaps]
    exact h.reaped_once

theorem zombie (h : ExitInv s) (hslot : SlotInv s) (hrun : (s.procs p).state = .running)
    (status : Int) (pc : Pc nproc) : ExitInv ((s.apply c p (.zombie status)).goto p pc) := by
  have hused : (s.procs p).state ≠ .unused := by
    rw [hrun]
    decide
  have hself : ((s.apply c p (.zombie status)).goto p pc).procs p =
      { s.procs p with
        xstate := status
        state := .zombie } := Sys.setProc_self _ _ _
  have hother : forall q, q ≠ p ->
      ((s.apply c p (.zombie status)).goto p pc).procs q = s.procs q :=
    fun q hq => Sys.setProc_ne _ _ hq
  have hexits : ((s.apply c p (.zombie status)).goto p pc).exits = s.exits ++
      [{ birth := (s.procs p).birth, pid := (s.procs p).pid, status := status }] := rfl
  have hnew : (s.procs p).birth ∉ s.exits.map Exit.birth := by
    intro hmem
    rcases List.mem_map.mp hmem with ⟨x, hx, heq⟩
    have hz := (h.gone x hx).2 p hused heq.symm
    rw [hrun] at hz
    cases hz
  constructor
  · intro q hq
    rw [hexits]
    rcases eq_or_ne q p with rfl | hne
    · rw [hself]
      exact List.mem_append_right _ (List.mem_singleton_self _)
    · rw [hother q hne] at hq ⊢
      exact List.mem_append_left _ (h.recorded q hq)
  · intro x hx
    rw [hexits] at hx
    rcases List.mem_append.mp hx with hx | hx
    · refine ⟨(h.gone x hx).1, ?_⟩
      intro q hq heq
      rcases eq_or_ne q p with rfl | hne
      · rw [hself]
      · rw [hother q hne] at hq heq ⊢
        exact (h.gone x hx).2 q hq heq
    · rcases List.mem_singleton.mp hx with rfl
      refine ⟨(hslot.born p hused).1, ?_⟩
      intro q hq heq
      rcases eq_or_ne q p with rfl | hne
      · rw [hself]
      · rw [hother q hne] at hq heq
        exact absurd (hslot.distinct q p hq hused heq) hne
  · rw [hexits, List.map_append, List.nodup_append]
    refine ⟨h.once, List.nodup_singleton _, ?_⟩
    intro b hb b' hb' heq
    rcases List.mem_singleton.mp hb' with rfl
    rw [heq] at hb
    exact hnew hb
  · intro r hr
    rcases h.right r hr with ⟨hstate, hparent, hpid, hstatus, hmem⟩
    exact ⟨hstate, hparent, hpid, hstatus, List.mem_append_left _ hmem⟩
  · intro r hr q hq
    rcases eq_or_ne q p with rfl | hne
    · rw [hself]
      exact h.freed r hr q hused
    · rw [hother q hne] at hq ⊢
      exact h.freed r hr q hq
  · exact h.reaped_once

theorem reap (h : ExitInv s) (hslot : SlotInv s)
    (hzombie : (s.procs q).state = .zombie) (hparent : (s.procs q).parent = some p)
    (copied : Bool) (pc : Pc nproc) : ExitInv ((s.apply c p (.reap q copied)).goto p pc) := by
  have hused : (s.procs q).state ≠ .unused := by
    rw [hzombie]
    decide
  have hself : ((s.apply c p (.reap q copied)).goto p pc).procs q = freeproc (s.procs q) :=
    Sys.setProc_self _ _ _
  have hother : forall v, v ≠ q ->
      ((s.apply c p (.reap q copied)).goto p pc).procs v = s.procs v :=
    fun v hv => Sys.setProc_ne _ _ hv
  have hstill : forall v, (((s.apply c p (.reap q copied)).goto p pc).procs v).state ≠ .unused ->
      v ≠ q := by
    rintro v hv rfl
    rw [hself] at hv
    exact hv rfl
  have hreaps : ((s.apply c p (.reap q copied)).goto p pc).reaps = s.reaps ++
      [{  caller := p
          entry := s.procs q
          returned := (s.procs q).pid
          status := if copied then some (s.procs q).xstate else none }] := rfl
  constructor
  · intro v hv
    have hne : v ≠ q := by
      rintro rfl
      rw [hself] at hv
      cases hv
    rw [hother v hne] at hv ⊢
    exact h.recorded v hv
  · intro x hx
    refine ⟨(h.gone x hx).1, ?_⟩
    intro v hv heq
    have hne := hstill v hv
    rw [hother v hne] at hv heq ⊢
    exact (h.gone x hx).2 v hv heq
  · exact h.once
  · intro r hr
    rw [hreaps] at hr
    rcases List.mem_append.mp hr with hr | hr
    · exact h.right r hr
    · rcases List.mem_singleton.mp hr with rfl
      refine ⟨hzombie, hparent, rfl, ?_, h.recorded q hzombie⟩
      intro status hstatus
      cases copied with
      | true => exact (Option.some.inj hstatus).symm
      | false => cases hstatus
  · intro r hr v hv heq
    have hne := hstill v hv
    rw [hother v hne] at hv heq
    rw [hreaps] at hr
    rcases List.mem_append.mp hr with hr | hr
    · exact h.freed r hr v hv heq
    · rcases List.mem_singleton.mp hr with rfl
      exact hne (hslot.distinct v q hv hused heq)
  · rw [hreaps, List.map_append, List.nodup_append]
    refine ⟨h.reaped_once, List.nodup_singleton _, ?_⟩
    intro b hb b' hb' heq
    rcases List.mem_singleton.mp hb' with rfl
    rcases List.mem_map.mp hb with ⟨r, hr, hbirth⟩
    exact h.freed r hr q hused (heq.symm.trans hbirth.symm)

theorem process (h : ExitInv s) (hsw : SwitchInv s) (hslot : SlotInv s)
    (hp : (s.cpus c).point = .process p) {e : Eff nproc}
    (hcode : Code s p ch (s.stack p) e pc) : ExitInv ((s.apply c p e).goto p pc) := by
  by_cases hexit : exists status, e = .zombie status
  · rcases hexit with ⟨status, rfl⟩
    exact h.zombie hslot (hsw.settles_running hp hcode rfl) status pc
  by_cases hreap : exists q b, e = .reap q b
  · rcases hreap with ⟨q, b, rfl⟩
    rcases hcode.reap_zombie with ⟨hzombie, hparent, _⟩
    exact h.reap hslot hzombie hparent b pc
  have hnozombie : forall status, e ≠ .zombie status := fun status heq => hexit ⟨status, heq⟩
  have hnoreap : forall q b, e ≠ .reap q b := fun q b heq => hreap ⟨q, b, heq⟩
  have hsame : forall q, (((s.apply c p e).procs q).state = .zombie <->
      (s.procs q).state = .zombie) ∧ ((s.procs q).state = .zombie ->
        ((s.apply c p e).procs q).xstate = (s.procs q).xstate) :=
    fun q => after_zombie hsw hp hcode (fun status _ => hnozombie status) (hnoreap q)
  have hmoved : forall q, Kept (s.procs q) ((s.apply c p e).procs q) ∨
      exists r, e = .alloc q r := by
    intro q
    rcases kept_or_moved hsw hslot.bare hp hcode q with hk | halloc | ⟨b, heq⟩
    · exact .inl hk
    · exact .inr halloc
    · exact absurd heq (hnoreap q b)
  refine h.of_silent ?_ ?_ ?_ ?_ ?_
  · cases e with
    | zombie status => exact absurd rfl (hnozombie status)
    | _ => rfl
  · cases e with
    | reap q b => exact absurd rfl (hnoreap q b)
    | _ => rfl
  · cases e with
    | alloc q r => exact Nat.le_succ _
    | _ => exact Nat.le_refl _
  · intro q hq
    have hold := (hsame q).1.1 hq
    rcases hmoved q with hk | ⟨r, rfl⟩
    · exact ⟨hold, hk.birth, hk.pid, (hsame q).2 hold⟩
    · rw [hcode.alloc_unused] at hold
      cases hold
  · intro q hq
    change ((s.apply c p e).procs q).state ≠ .unused at hq
    rcases hmoved q with hk | ⟨r, rfl⟩
    · exact .inr ⟨fun hun => hq (hk.unused.2 hun), hk.birth, (hsame q).1.2⟩
    · refine .inl ?_
      change ((s.apply c p (.alloc q r)).procs q).birth = s.births
      rw [apply_target rfl]
      cases r <;> rfl

theorem move (h : ExitInv s) (hsw : SwitchInv s) (hslot : SlotInv s)
    (hmove : Move s c ch s') : ExitInv s' := by
  cases hmove with
  | run p hpt =>
    have hon := hsw.on c p (by rw [hpt]; rfl)
    rw [hpt] at hon
    have hstate : (s.procs p).state = .runnable := hon.2.1
    refine h.of_silent rfl rfl (Nat.le_refl _) ?_ ?_
    · intro q hq
      change ((s.setProc p _).procs q).state = .zombie at hq
      have hne : q ≠ p := by
        rintro rfl
        rw [Sys.setProc_self] at hq
        cases hq
      have hproc : ((s.setProc p { s.procs p with state := .running }).setPoint c
          (.chosen p)).procs q = s.procs q := Sys.setProc_ne _ _ hne
      rw [Sys.setProc_ne _ _ hne] at hq
      rw [hproc]
      exact ⟨hq, rfl, rfl, rfl⟩
    · intro q hq
      refine .inr ?_
      rcases eq_or_ne q p with rfl | hne
      · have hproc : ((s.setProc q { s.procs q with state := .running }).setPoint c
            (.chosen q)).procs q = { s.procs q with state := .running } :=
          Sys.setProc_self _ _ _
        rw [hproc, hstate]
        exact ⟨nofun, rfl, nofun⟩
      · have hproc : ((s.setProc p { s.procs p with state := .running }).setPoint c
            (.chosen p)).procs q = s.procs q := Sys.setProc_ne _ _ hne
        rw [hproc] at hq ⊢
        exact ⟨hq, rfl, id⟩
  | process p e pc hpt hcode hen => exact h.process hsw hslot hpt hcode
  | _ => exact ⟨h.recorded, h.gone, h.once, h.right, h.freed, h.reaped_once⟩

theorem of_booted (h : s.Booted) : ExitInv s := by
  have hstate : forall q, (s.procs q).state ≠ .zombie := by
    intro q
    rcases eq_or_ne q s.initproc with rfl | hq
    · rw [h.init_state]
      decide
    · rw [h.unused q hq]
      decide
  constructor
  · intro q hq
    exact absurd hq (hstate q)
  · intro x hx
    rw [h.exits] at hx
    cases hx
  · rw [h.exits]
    exact List.nodup_nil
  · intro r hr
    rw [h.reaps] at hr
    cases hr
  · intro r hr
    rw [h.reaps] at hr
    cases hr
  · rw [h.reaps]
    exact List.nodup_nil

end ExitInv

/-!
## Parents and children

`wait_lock` guards the parent pointers.  What a thread that holds it has seen of
the children can be read off its point: how far `reparent` and the scan of
`kwait` have got.
-/

def WakeKont.departs : WakeKont -> Bool
  | .exitOwn _ => true
  | _ => false

def WakeKont.Passed (q : Fin nproc) : WakeKont -> Prop
  | .reparent _ pp => q < pp
  | _ => False

def SleepKont.waits : SleepKont -> Bool
  | .client _ _ => false
  | .wait _ => true

theorem SleepKont.lk_eq_wait {k : SleepKont} : k.lk = .wait <-> k.waits = true := by
  cases k <;> simp [SleepKont.lk, SleepKont.waits]

namespace Pc

def departs : Pc nproc -> Bool
  | .wake _ _ k => k.departs
  | .exitOwn _ => true
  | .exitSet _ => true
  | .exitUnlock => true
  | _ => false

def Passed (q : Fin nproc) : Pc nproc -> Prop
  | .reparent _ pp => q < pp
  | .wake _ _ k => k.Passed q
  | _ => False

/-- `kwait` has found no zombie child in slot `q` since it took `wait_lock`. -/
def Seen (q : Fin nproc) : Pc nproc -> Prop
  | .waitScan _ pp _ => q < pp
  | .sleepAcquire _ k => k.waits = true
  | .sleepRelease _ k => k.waits = true
  | _ => False

def WaitsOn (chan : Chan nproc) : Pc nproc -> Prop
  | .sleepAcquire chan' k => chan' = chan ∧ k.waits = true
  | .sleepRelease chan' k => chan' = chan ∧ k.waits = true
  | .sleepSet chan' k => chan' = chan ∧ k.waits = true
  | .swtch (.sleep chan' k) => chan' = chan ∧ k.waits = true
  | _ => False

theorem holds_of_departs (h : pc.departs = true) : pc.Holds .wait := by
  cases pc with
  | wake chan j k => cases k <;> first | rfl | cases h
  | _ => first | rfl | cases h

theorem leaving_of_departs (h : pc.departs = true) : pc.leaving = true := by
  cases pc with
  | wake chan j k => cases k <;> first | rfl | cases h
  | _ => first | rfl | cases h

theorem leaving_of_passed (h : pc.Passed q) :
    pc.leaving = true := by
  cases pc with
  | wake chan j k =>
    cases k with
    | reparent status pp => rfl
    | _ => cases h
  | reparent status pp => rfl
  | _ => cases h

theorem holds_of_seen (h : pc.Seen q) : pc.Holds .wait := by
  cases pc with
  | waitScan addr pp kids => rfl
  | sleepAcquire chan k => exact (SleepKont.lk_eq_wait.2 h).symm
  | sleepRelease chan k => exact (SleepKont.lk_eq_wait.2 h).symm
  | _ => cases h

end Pc

section

variable {s : Sys nproc ncpu} {c : Fin ncpu} {p : Fin nproc} {ch : Choice nproc}
  {e : Eff nproc} {pc pc' : Pc nproc}

section

variable (h : Code s p ch pc e pc')
include h

theorem Code.into_departs (hd : pc'.departs = true) :
    pc.departs = true ∨ exists status j, nproc <= j ∧ pc = .reparent status j ∧
      pc' = .wake (((s.procs p).parent.map Chan.proc).getD .null) 0 (.exitOwn status) := by
  cases h with
  | wakeSkip => exact .inl hd
  | wakeVisit _ => exact .inl hd
  | wakeDone _ => next k _ => cases k <;> first | exact .inl rfl | cases hd
  | sleepRelock => next k => cases k <;> cases hd
  | reparentDone hj => exact .inr ⟨_, _, hj, rfl, rfl⟩
  | exitOwn => exact .inl rfl
  | exitSet => exact .inl rfl
  | _ => cases hd

theorem Code.into_passed (hq : pc'.Passed q) :
    pc.Passed q ∨ e = .adopt q ∨ (e = .nothing ∧ (s.procs q).parent ≠ some p) := by
  cases h with
  | wakeSkip => exact .inl hq
  | wakeVisit _ => exact .inl hq
  | wakeDone _ =>
    next k _ =>
    cases k with
    | reparent status pp => exact .inl hq
    | _ => cases hq
  | sleepRelock => next k => cases k <;> cases hq
  | exitLock => exact absurd hq (Nat.not_lt_zero _)
  | reparentHit _ =>
    next status v =>
    rcases Nat.lt_or_eq_of_le (Nat.le_of_lt_succ hq) with hlt | heq
    · exact .inl hlt
    · rw [Fin.ext heq]
      exact .inr (.inl rfl)
  | reparentMiss hparent =>
    next status v =>
    rcases Nat.lt_or_eq_of_le (Nat.le_of_lt_succ hq) with hlt | heq
    · exact .inl hlt
    · rw [Fin.ext heq]
      exact .inr (.inr ⟨rfl, hparent⟩)
  | _ => cases hq

theorem Code.into_seen (hq : pc'.Seen q) :
    pc.Seen q ∨ pc.Holds .wait ∧ pc.departs = false ∧
      (forall status j, pc ≠ .reparent status j) ∧
      ((s.procs q).parent ≠ some p ∨ (s.procs q).state ≠ .zombie) := by
  cases h with
  | sleep => cases hq
  | wakeDone _ => next k _ => cases k <;> cases hq
  | sleepRelock =>
    next k =>
    cases k with
    | client m n => cases hq
    | wait addr => exact absurd hq (Nat.not_lt_zero _)
  | sleepAcquire => exact .inl hq
  | waitLock => exact absurd hq (Nat.not_lt_zero _)
  | waitAlive _ halive =>
    rcases Nat.lt_or_eq_of_le (Nat.le_of_lt_succ hq) with hlt | heq
    · exact .inl hlt
    · rw [Fin.ext heq]
      exact .inr ⟨rfl, rfl, nofun, .inr halive⟩
  | waitOther hparent =>
    rcases Nat.lt_or_eq_of_le (Nat.le_of_lt_succ hq) with hlt | heq
    · exact .inl hlt
    · rw [Fin.ext heq]
      exact .inr ⟨rfl, rfl, nofun, .inl hparent⟩
  | waitSleep hj _ => exact .inl (Nat.lt_of_lt_of_le q.isLt hj)
  | _ => cases hq

theorem Code.into_waitsOn {chan : Chan nproc}
    (hc : pc'.WaitsOn chan) : pc.WaitsOn chan ∨ chan = .proc p := by
  cases h with
  | sleep => cases hc.2
  | wakeDone _ => next k _ => cases k <;> cases hc
  | sleepRelock => next k => cases k <;> cases hc
  | sleepAcquire => exact .inl hc
  | sleepRelease => exact .inl hc
  | sleepSet => exact .inl hc
  | swtch => exact .inl hc
  | waitSleep _ _ => exact .inr hc.1.symm
  | _ => cases hc

theorem Code.of_wake {chan : Chan nproc} {j : Nat} {k : WakeKont}
    (hpc : pc = .wake chan j k) : nproc <= j ∨ pc' = .wake chan (j + 1) k := by
  cases h with
  | wakeSkip =>
    cases hpc
    exact .inr rfl
  | wakeVisit _ =>
    cases hpc
    exact .inr rfl
  | wakeDone hj =>
    cases hpc
    exact .inl hj
  | _ => cases hpc

end

theorem Code.adopt_point (h : Code s p ch pc (.adopt q) pc') :
    exists status, pc = .reparent status q ∧
      pc' = .wake (.proc s.initproc) 0 (.reparent status (q + 1)) := by
  cases h with
  | reparentHit _ => exact ⟨_, rfl, rfl⟩

theorem after_parent (h : ((s.apply c p e).procs q).parent = some v) :
    (s.procs q).parent = some v ∨ (e = .adopt q ∧ v = s.initproc) ∨ (e = .father q ∧ v = p) := by
  by_cases ht : e.target p = some q
  · rw [apply_target ht] at h
    cases e with
    | wake q' chan =>
      simp only [Eff.write, wakeup] at h
      split at h <;> exact .inl h
    | adopt q' =>
      cases ht
      exact .inr (.inl ⟨rfl, (Option.some.inj h).symm⟩)
    | father q' =>
      cases ht
      exact .inr (.inr ⟨rfl, (Option.some.inj h).symm⟩)
    | alloc q' r =>
      cases r with
      | ok => exact .inl h
      | _ => cases h
    | reap q' b => cases h
    | _ => exact .inl h
  · rw [apply_other ht] at h
    exact .inl h

end

/-- Process `q` is past the reparenting of its children: a zombie or about to become one. -/
def Departed (s : Sys nproc ncpu) (q : Fin nproc) : Prop :=
  (s.procs q).state = .zombie ∨ (s.stack q).departs = true

structure KidInv (s : Sys nproc ncpu) : Prop where
  orphan : forall q v, Departed s v -> (s.procs q).parent ≠ some v
  passed : forall q v, (s.stack v).Passed q -> (s.procs q).parent ≠ some v
  chan : forall v chan, (s.stack v).WaitsOn chan -> chan = .proc v
  seen : forall q v, (s.stack v).Seen q -> (s.procs q).parent = some v -> ¬ Departed s q
  owed : forall q v, Committed s v (.proc v) .wait -> (s.procs q).parent = some v ->
    Departed s q -> exists r j k, s.stack r = .wake (.proc v) j k ∧ k.Holds .wait

section

variable {s : Sys nproc ncpu} {c : Fin ncpu} {p : Fin nproc} {ch : Choice nproc}

theorem InitInv.not_departed (h : InitInv s) (hsw : SwitchInv s) : ¬ Departed s s.initproc := by
  have hstays := h.stays
  rintro (hzombie | hd)
  · rcases hsw.zombie_stack hzombie with hst | hst <;> rw [hst] at hstays <;> cases hstays
  · rw [Pc.leaving_of_departs hd] at hstays
    cases hstays

theorem departed_before (hsw : SwitchInv s) (hp : (s.cpus c).point = .process p) {e : Eff nproc}
    (hcode : Code s p ch (s.stack p) e pc) (h : Departed ((s.apply c p e).goto p pc) q) :
    Departed s q ∨ (q = p ∧ exists status j, nproc <= j ∧ s.stack p = .reparent status j ∧
      pc = .wake (((s.procs p).parent.map Chan.proc).getD .null) 0 (.exitOwn status)) := by
  rcases h with hzombie | hd
  · change ((s.apply c p e).procs q).state = .zombie at hzombie
    by_cases hexit : exists status, q = p ∧ e = .zombie status
    · rcases hexit with ⟨status, rfl, rfl⟩
      have hpc : forall x : Pc nproc, Code s q ch x (.zombie status) pc -> x.departs = true := by
        intro x hx
        cases hx
        rfl
      exact .inl (.inr (hpc _ hcode))
    · have hreap : forall b, e ≠ .reap q b := by
        rintro b rfl
        rw [apply_target rfl] at hzombie
        cases hzombie
      have hsame := after_zombie hsw hp hcode
        (fun status heq hz => hexit ⟨status, heq, hz⟩) hreap
      exact .inl (.inl (hsame.1.1 hzombie))
  · rcases eq_or_ne q p with rfl | hq
    · rw [Sys.goto_self] at hd
      rcases hcode.into_departs hd with hold | hnew
      · exact .inl (.inr hold)
      · exact .inr ⟨rfl, hnew⟩
    · rcases after_stack s c e pc hq with heq | ⟨_, hnew⟩
      · rw [heq] at hd
        exact .inl (.inr hd)
      · rw [hnew] at hd
        cases hd

end

namespace KidInv

variable {s s' : Sys nproc ncpu} {c : Fin ncpu} {p : Fin nproc} {ch : Choice nproc}
  {e : Eff nproc} {pc : Pc nproc}

theorem of_less (h : KidInv s) (hparent : forall q, (s'.procs q).parent = (s.procs q).parent)
    (hzombie : forall q, (s'.procs q).state = .zombie -> (s.procs q).state = .zombie)
    (hdeparts : forall q, (s'.stack q).departs = true -> (s.stack q).departs = true)
    (hpassed : forall q v, (s'.stack v).Passed q -> (s.stack v).Passed q)
    (hchan : forall v chan, (s'.stack v).WaitsOn chan -> (s.stack v).WaitsOn chan)
    (hseen : forall q v, (s'.stack v).Seen q -> (s.stack v).Seen q)
    (hcom : forall v chan, Committed s' v chan .wait -> Committed s v chan .wait)
    (hwake : forall r chan j k, s.stack r = .wake chan j k -> s'.stack r = .wake chan j k) :
    KidInv s' := by
  have hdep : forall q, Departed s' q -> Departed s q := by
    rintro q (hz | hd)
    · exact .inl (hzombie q hz)
    · exact .inr (hdeparts q hd)
  constructor
  · intro q v hv
    rw [hparent]
    exact h.orphan q v (hdep v hv)
  · intro q v hv
    rw [hparent]
    exact h.passed q v (hpassed q v hv)
  · intro v chan hv
    exact h.chan v chan (hchan v chan hv)
  · intro q v hv hq hd
    rw [hparent] at hq
    exact h.seen q v (hseen q v hv) hq (hdep q hd)
  · intro q v hv hq hd
    rw [hparent] at hq
    rcases h.owed q v (hcom v _ hv) hq (hdep q hd) with ⟨r, j, k, hr, hk⟩
    exact ⟨r, j, k, hwake r _ j k hr, hk⟩

theorem child_before (hlk : LockInv s) (hcode : Code s p ch (s.stack p) e pc)
    (hen : s.Enabled p e) {w : Fin nproc} (hw : (s.stack w).Holds .wait)
    (hquiet : forall status j, s.stack w ≠ .reparent status j)
    (h : ((s.apply c p e).procs q).parent = some v) : (s.procs q).parent = some v := by
  rcases after_parent h with hold | ⟨rfl, _⟩ | ⟨rfl, _⟩
  · exact hold
  · rcases hcode.adopt_point with ⟨status, hpc, _⟩
    have hp : (s.stack p).Holds .wait := by
      rw [hpc]
      rfl
    rw [hlk.unique hw hp] at hquiet
    exact absurd hpc (hquiet status q)
  · have hfree : s.locks .wait = none := hen
    rw [(hlk .wait w).2 hw] at hfree
    cases hfree

theorem departed_before_of_held (hsw : SwitchInv s) (hlk : LockInv s)
    (hp : (s.cpus c).point = .process p) (hcode : Code s p ch (s.stack p) e pc) {w : Fin nproc}
    (hw : (s.stack w).Holds .wait) (hquiet : forall status j, s.stack w ≠ .reparent status j)
    (h : Departed ((s.apply c p e).goto p pc) q) : Departed s q := by
  rcases departed_before hsw hp hcode h with hold | ⟨rfl, status, j, _, hpc, _⟩
  · exact hold
  · have hq : (s.stack q).Holds .wait := by
      rw [hpc]
      rfl
    rw [hlk.unique hw hq] at hquiet
    exact absurd hpc (hquiet status j)

theorem seen_quiet (h : (s.stack v).Seen q) (status : Int) (j : Nat) :
    s.stack v ≠ .reparent status j := by
  intro heq
  rw [heq] at h
  cases h

section

variable (h : KidInv s) (hsw : SwitchInv s) (hlk : LockInv s)
include h hsw hlk

theorem process_seen (hp : (s.cpus c).point = .process p) (hcode : Code s p ch (s.stack p) e pc)
    (hen : s.Enabled p e) (hv : (((s.apply c p e).goto p pc).stack v).Seen q)
    (hq : ((s.apply c p e).procs q).parent = some v)
    (hd : Departed ((s.apply c p e).goto p pc) q) : False := by
  have hold : (s.stack v).Seen q -> False := by
    intro hseen
    have hheld := Pc.holds_of_seen hseen
    have hquiet := seen_quiet hseen
    exact h.seen q v hseen (child_before hlk hcode hen hheld hquiet hq)
      (departed_before_of_held hsw hlk hp hcode hheld hquiet hd)
  rcases eq_or_ne v p with rfl | hne
  · rw [Sys.goto_self] at hv
    rcases hcode.into_seen hv with hseen | ⟨hheld, hnot, hquiet, hcheck⟩
    · exact hold hseen
    · -- the scan has just looked at slot `q`
      have hparent := child_before hlk hcode hen hheld hquiet hq
      rcases hcheck with hother | halive
      · exact hother hparent
      · rcases departed_before_of_held hsw hlk hp hcode hheld hquiet hd with hz | hdep
        · exact halive hz
        · rw [hlk.unique hheld (Pc.holds_of_departs hdep), hdep] at hnot
          cases hnot
  · rcases after_stack s c e pc hne with heq | ⟨_, hnew⟩
    · rw [heq] at hv
      exact hold hv
    · rw [hnew] at hv
      cases hv

theorem process_owed (hwk : WakeInv s)
    (hp : (s.cpus c).point = .process p) (hcode : Code s p ch (s.stack p) e pc)
    (hen : s.Enabled p e) (hv : Committed ((s.apply c p e).goto p pc) v (.proc v) .wait)
    (hq : ((s.apply c p e).procs q).parent = some v) (hd : Departed ((s.apply c p e).goto p pc) q) :
    exists r j k, ((s.apply c p e).goto p pc).stack r = .wake (.proc v) j k ∧
      k.Holds .wait := by
  rcases WakeInv.committed_before hcode hv with hcom | ⟨rfl, k, hk, hrel⟩
  · rcases after_parent hq with hparent | ⟨rfl, rfl⟩ | ⟨rfl, rfl⟩
    · rcases departed_before hsw hp hcode hd with hdep | ⟨rfl, status, j, _, _, rfl⟩
      · -- the scan that is on its way has not reached `v`
        rcases h.owed q v hcom hparent hdep with ⟨r, j, k, hr, hk⟩
        have hle := hwk.ahead r (.proc v) j k .wait v hr hk hcom
        rcases eq_or_ne r p with rfl | hne
        · rcases hcode.of_wake hr with hj | hnext
          · have hlt := v.isLt
            omega
          · exact ⟨r, j + 1, k, (Sys.goto_self _ _ _).trans hnext, hk⟩
        · rcases after_stack s c e pc hne with heq | ⟨rfl, _⟩
          · exact ⟨r, j, k, heq.trans hr, hk⟩
          · rw [hsw.dead_of_gone hen (.inr hcode.alloc_unused)] at hr
            cases hr
      · refine ⟨q, 0, .exitOwn status, ?_, rfl⟩
        rw [Sys.goto_self, hparent]
        rfl
    · rcases hcode.adopt_point with ⟨status, _, rfl⟩
      exact ⟨p, 0, .reparent status (q + 1), Sys.goto_self _ _ _, rfl⟩
    · rcases hcode.flow with ⟨pid, hpc, _⟩
      rcases hcom with ⟨k, _, hset | ⟨hset, _⟩⟩ <;> rw [hpc] at hset <;> cases hset
  · -- `v` releases `wait_lock` having seen no zombie
    have hseen : (s.stack v).Seen q := by
      rw [hrel]
      exact SleepKont.lk_eq_wait.1 hk
    have hheld := Pc.holds_of_seen hseen
    have hquiet := seen_quiet hseen
    exact absurd (departed_before_of_held hsw hlk hp hcode hheld hquiet hd)
      (h.seen q v hseen (child_before hlk hcode hen hheld hquiet hq))

theorem process (hwk : WakeInv s) (hinit : InitInv s) (hp : (s.cpus c).point = .process p)
    (hcode : Code s p ch (s.stack p) e pc) (hen : s.Enabled p e)
    (hsw' : SwitchInv ((s.apply c p e).goto p pc))
    (hinit' : InitInv ((s.apply c p e).goto p pc)) : KidInv ((s.apply c p e).goto p pc) := by
  have hsame : ((s.apply c p e).goto p pc).initproc = s.initproc := apply_initproc s c p e
  constructor
  · intro q v hv hq
    rcases after_parent hq with hparent | ⟨rfl, rfl⟩ | ⟨rfl, rfl⟩
    · rcases departed_before hsw hp hcode hv with hdep | ⟨rfl, status, j, hj, hpc, _⟩
      · exact h.orphan q v hdep hparent
      · refine h.passed q v ?_ hparent
        rw [hpc]
        exact Nat.lt_of_lt_of_le q.isLt hj
    · rw [← hsame] at hv
      exact hinit'.not_departed hsw' hv
    · rcases hcode.flow with ⟨pid, hpc, _⟩
      rcases departed_before hsw hp hcode hv with (hz | hdep) | ⟨_, status, j, _, hpc', _⟩
      · rcases hsw.zombie_stack hz with hst | hst <;> rw [hpc] at hst <;> cases hst
      · rw [hpc] at hdep
        cases hdep
      · rw [hpc] at hpc'
        cases hpc'
  · intro q v hv hq
    rcases eq_or_ne v p with rfl | hne
    · rw [Sys.goto_self] at hv
      have hleaving : v ≠ s.initproc := by
        rintro rfl
        have hstays := hinit'.stays
        rw [hsame, Sys.goto_self, Pc.leaving_of_passed hv] at hstays
        cases hstays
      rcases after_parent hq with hparent | ⟨_, heq⟩ | ⟨rfl, _⟩
      · rcases hcode.into_passed hv with hold | rfl | ⟨_, hother⟩
        · exact h.passed q v hold hparent
        · change ((s.apply c v (.adopt q)).procs q).parent = some v at hq
          rw [apply_target rfl] at hq
          exact hleaving (Option.some.inj hq).symm
        · exact hother hparent
      · exact hleaving heq
      · rcases hcode.flow with ⟨pid, _, rfl⟩
        cases hv
    · rcases after_stack s c e pc hne with heq | ⟨_, hnew⟩
      · rw [heq] at hv
        rcases after_parent hq with hparent | ⟨_, rfl⟩ | ⟨_, rfl⟩
        · exact h.passed q v hv hparent
        · have hstays := hinit.stays
          rw [Pc.leaving_of_passed hv] at hstays
          cases hstays
        · exact hne rfl
      · rw [hnew] at hv
        cases hv
  · intro v chan hv
    rcases eq_or_ne v p with rfl | hne
    · rw [Sys.goto_self] at hv
      rcases hcode.into_waitsOn hv with hold | heq
      · exact h.chan v chan hold
      · exact heq
    · rcases after_stack s c e pc hne with heq | ⟨_, hnew⟩
      · rw [heq] at hv
        exact h.chan v chan hv
      · rw [hnew] at hv
        cases hv
  · intro q v hv hq hd
    exact h.process_seen hsw hlk hp hcode hen hv hq hd
  · intro q v hv hq hd
    exact h.process_owed hsw hlk hwk hp hcode hen hv hq hd

theorem move (hwk : WakeInv s)
    (hslot : SlotInv s) (hinit : InitInv s) (hmove : Move s c ch s') : KidInv s' := by
  have hsw' := hsw.move hmove
  have hinit' := (hinit.move hsw hslot hmove).1
  cases hmove with
  | run p hpt =>
    have hproc : forall q, ((s.setProc p { s.procs p with state := .running }).procs q).parent =
        (s.procs q).parent ∧
        (((s.setProc p { s.procs p with state := .running }).procs q).state = .running ∨
          ((s.setProc p { s.procs p with state := .running }).procs q).state =
            (s.procs q).state) := by
      intro q
      rcases eq_or_ne q p with rfl | hq
      · rw [Sys.setProc_self]
        exact ⟨rfl, .inl rfl⟩
      · rw [Sys.setProc_ne _ _ hq]
        exact ⟨rfl, .inr rfl⟩
    have hstate : forall q st, st ≠ .running ->
        ((s.setProc p { s.procs p with state := .running }).procs q).state = st ->
        (s.procs q).state = st := by
      intro q st hst hq
      rcases (hproc q).2 with hrun | hsame
      · exact absurd (hq.symm.trans hrun) hst
      · exact hsame.symm.trans hq
    refine h.of_less (fun q => (hproc q).1) (fun q => hstate q .zombie nofun) (fun _ => id)
      (fun _ _ => id) (fun _ _ => id) (fun _ _ => id) ?_ (fun _ _ _ _ => id)
    rintro v chan ⟨k, hk, hset | ⟨hswtch, hsleep⟩⟩
    · exact ⟨k, hk, .inl hset⟩
    · exact ⟨k, hk, .inr ⟨hswtch, hstate v .sleeping nofun hsleep⟩⟩
  | switch p hpt =>
    have hon := hsw.on c p (by rw [hpt]; rfl)
    rw [hpt] at hon
    rcases hon with ⟨_, _, r, hr, hdead⟩
    have hother : forall q, q ≠ p -> (s.goto p (s.stack p).resume).stack q = s.stack q :=
      fun q hq => Sys.goto_ne _ _ hq
    have hself : exists m k, (s.goto p (s.stack p).resume).stack p = .unlock m ∨
        (s.goto p (s.stack p).resume).stack p = .sleepTidy k := by
      rw [Sys.goto_self, hr]
      cases r with
      | sleep chan k => exact ⟨.normal, k, .inr rfl⟩
      | yield m => exact ⟨m, .wait 0, .inl rfl⟩
      | forkret => exact ⟨.normal, .wait 0, .inl rfl⟩
      | dead => exact absurd rfl hdead
    have hback : forall P : Pc nproc -> Prop, (forall m, ¬ P (.unlock m)) ->
        (forall k, ¬ P (.sleepTidy k)) -> forall q,
        P ((s.goto p (s.stack p).resume).stack q) -> P (s.stack q) := by
      intro P hunlock htidy q hq
      rcases eq_or_ne q p with rfl | hne
      · rcases hself with ⟨m, k, heq | heq⟩ <;> rw [heq] at hq
        · exact absurd hq (hunlock m)
        · exact absurd hq (htidy k)
      · rw [hother q hne] at hq
        exact hq
    refine h.of_less (fun _ => rfl) (fun _ => id)
      (hback (fun x => x.departs = true) nofun nofun)
      (fun q => hback (Pc.Passed q) (fun _ => id) (fun _ => id))
      (fun v chan => hback (Pc.WaitsOn chan) (fun _ => id) (fun _ => id) v)
      (fun q => hback (Pc.Seen q) (fun _ => id) (fun _ => id)) ?_ ?_
    · rintro v chan ⟨k, hk, hset | ⟨hswtch, hsleep⟩⟩
      · exact ⟨k, hk, .inl (hback (· = .sleepSet chan k) nofun nofun v hset)⟩
      · exact ⟨k, hk, .inr ⟨hback (· = .swtch (.sleep chan k)) nofun nofun v hswtch, hsleep⟩⟩
    · intro v chan j k hv
      have hne : v ≠ p := by
        rintro rfl
        rw [hr] at hv
        cases hv
      exact (hother v hne).trans hv
  | process p e pc hpt hcode hen =>
    exact h.process hsw hlk hwk hinit hpt hcode hen hsw' hinit'
  | _ => exact ⟨h.orphan, h.passed, h.chan, h.seen, h.owed⟩

end

theorem of_booted (h : s.Booted) : KidInv s := by
  have hparent : forall q v, (s.procs q).parent ≠ some v := by
    intro q v
    rcases eq_or_ne q s.initproc with rfl | hq
    · rw [h.init_parent]
      exact nofun
    · rw [(h.clean q hq).parent]
      exact nofun
  constructor
  · intro q v _
    exact hparent q v
  · intro q v _
    exact hparent q v
  · intro v chan hv
    rcases eq_or_ne v s.initproc with rfl | hne
    · rw [h.init_stack] at hv
      cases hv
    · rw [h.stack v hne] at hv
      cases hv
  · intro q v _ hq
    exact absurd hq (hparent q v)
  · intro q v _ hq
    exact absurd hq (hparent q v)

end KidInv

theorem kidInv_reachable {ok : Sys nproc ncpu -> _ -> Prop}
    (h : (system nproc ncpu).ReachableVia ok s) : LockInv s ∧ ExitInv s ∧ KidInv s := by
  have hall : (SwitchInv s ∧ LockInv s ∧ WakeInv s) ∧ (SlotInv s ∧ InitInv s) ∧
      ExitInv s ∧ KidInv s := by
    refine h.invariant (I := fun s => (SwitchInv s ∧ LockInv s ∧ WakeInv s) ∧
      (SlotInv s ∧ InitInv s) ∧ ExitInv s ∧ KidInv s) ?_ ?_
    · intro s hs
      exact ⟨⟨SwitchInv.of_booted hs, LockInv.of_booted hs, WakeInv.of_booted hs⟩,
        ⟨SlotInv.of_booted hs, InitInv.of_booted hs⟩, ExitInv.of_booted hs,
        KidInv.of_booted hs⟩
    · rintro s l s' ⟨⟨hsw, hlk, hwk⟩, ⟨hslot, hinit⟩, hexit, hkid⟩ _ hstep
      have hmove := step_move hstep
      exact ⟨⟨hsw.move hmove, hlk.move hsw hmove, hwk.move hsw hlk hmove⟩,
        ⟨hslot.move hsw hmove, (hinit.move hsw hslot hmove).1⟩, hexit.move hsw hslot hmove,
        hkid.move hsw hlk hwk hslot hinit hmove⟩
  exact ⟨hall.1.2.1, hall.2.2⟩

/-!
## One delivery

A slot falls free only by a `kwait` that returns the pid of its process, and
`kwait` gives up on a child whose status it cannot copy out without touching it.
-/

theorem freed_by_kwait {c : Fin ncpu} {ch : Choice nproc}
    (hsw : SwitchInv s) (hslot : SlotInv s) (hstep : s.step c ch = some s')
    (hused : (s.procs q).state ≠ .unused) (hfree : (s'.procs q).state = .unused) :
    exists r, s'.reaps = s.reaps ++ [r] ∧ r.entry = s.procs q ∧
      (s.cpus c).point = .process r.caller ∧ s'.stack r.caller = .waitRet r.returned := by
  cases step_move hstep with
  | run p hpt =>
    change ((s.setProc p _).procs q).state = .unused at hfree
    rcases eq_or_ne q p with rfl | hq
    · rw [Sys.setProc_self] at hfree
      cases hfree
    · rw [Sys.setProc_ne _ _ hq] at hfree
      exact absurd hfree hused
  | process p e pc hpt hcode hen =>
    change ((s.apply c p e).procs q).state = .unused at hfree
    rcases kept_or_moved hsw hslot.bare hpt hcode q with hk | ⟨r, rfl⟩ | ⟨b, rfl⟩
    · exact absurd (hk.unused.1 hfree) hused
    · exact absurd hcode.alloc_unused hused
    · rcases hcode.reap_zombie with ⟨_, _, rfl⟩
      exact ⟨_, rfl, rfl, hpt, Sys.goto_self _ _ _⟩
  | _ => exact absurd hfree hused

/-!
## Children

A process keeps its children until `kwait` frees them or its `reparent` hands them to `initproc`.
-/

theorem Code.into_forkParent {p : Fin nproc} {ch : Choice nproc} {x : Pc nproc} {e : Eff nproc}
    {pid : Int} (h : Code s p ch x e pc) (hpc : pc = .forkParent q pid) : e = .alloc q .ok := by
  cases h with
  | forkOk _ =>
    cases hpc
    rfl
  | wakeDone _ => next k _ => cases k <;> cases hpc
  | sleepRelock => next k => cases k <;> cases hpc
  | _ => cases hpc

def Fatherless (s : Sys nproc ncpu) : Prop :=
  forall p q pid, s.stack p = .forkParent q pid -> (s.procs q).parent = none

namespace Fatherless

variable {c : Fin ncpu} {p : Fin nproc} {ch : Choice nproc} {e : Eff nproc}

theorem process (h : Fatherless s) (hsw : SwitchInv s) (hslot : SlotInv s)
    (hcode : Code s p ch (s.stack p) e pc) : Fatherless ((s.apply c p e).goto p pc) := by
  intro r q pid hr
  change ((s.apply c p e).procs q).parent = none
  cases hq : ((s.apply c p e).procs q).parent with
  | none => rfl
  | some v =>
    exfalso
    rcases eq_or_ne r p with rfl | hne
    · rw [Sys.goto_self] at hr
      obtain rfl := hcode.into_forkParent hr
      rcases after_parent hq with hold | ⟨heq, _⟩ | ⟨heq, _⟩
      · rw [(hslot.bare q hcode.alloc_unused).parent] at hold
        cases hold
      · cases heq
      · cases heq
    · rcases after_stack s c e pc hne with heq | ⟨_, hnew⟩
      · rw [heq] at hr
        have hnone := h r q pid hr
        rcases after_parent hq with hold | ⟨rfl, _⟩ | ⟨rfl, _⟩
        · rw [hnone] at hold
          cases hold
        · rw [hcode.adopt_child] at hnone
          cases hnone
        · rcases hcode.flow with ⟨pid', hpc, _⟩
          exact hne (hsw.child_once r p q (by rw [hr]; rfl) (by rw [hpc]; rfl))
      · rw [hnew] at hr
        cases hr

theorem move (h : Fatherless s) (hsw : SwitchInv s) (hslot : SlotInv s)
    (hmove : Move s c ch s') : Fatherless s' := by
  cases hmove with
  | run p hpt =>
    intro r q pid hr
    have hold := h r q pid hr
    change ((s.setProc p { s.procs p with state := .running }).procs q).parent = none
    rcases eq_or_ne q p with rfl | hq
    · rw [Sys.setProc_self]
      exact hold
    · rw [Sys.setProc_ne _ _ hq]
      exact hold
  | switch p hpt =>
    intro r q pid hr
    change (s.goto p (s.stack p).resume).stack r = _ at hr
    rcases eq_or_ne r p with rfl | hne
    · rw [Sys.goto_self] at hr
      cases hpc : s.stack r with
      | swtch k =>
        rw [hpc] at hr
        cases k <;> cases hr
      | _ =>
        rw [hpc] at hr
        exact h r q pid (hpc.trans hr)
    · exact h r q pid ((Sys.goto_ne _ _ hne).symm.trans hr)
  | process p e pc hpt hcode hen => exact h.process hsw hslot hcode
  | _ => exact h

theorem of_booted (h : s.Booted) : Fatherless s := by
  intro p q pid hpc
  rcases eq_or_ne p s.initproc with rfl | hne
  · rw [h.init_stack] at hpc
    cases hpc
  · rw [h.stack p hne] at hpc
    cases hpc

theorem reachable (h : (system nproc ncpu).Reachable s) : Fatherless s := by
  induction h with
  | init hs => exact of_booted hs
  | step hreach _ hstep ih =>
    rcases slotInv_reachable hreach with ⟨hsw, hslot⟩
    exact ih.move hsw hslot (step_move hstep)

theorem child_step (h : Fatherless s) (hslot : SlotInv s) (hstep : s.step c ch = some s')
    (hq : (s.procs q).parent = some v) :
    (s'.procs q).parent = some v ∨
    ((s'.procs q).parent = some s.initproc ∧ (s.cpus c).point = .process v ∧
      exists status, s.stack v = .reparent status q) ∨
    ((s'.procs q).state = .unused ∧ (s.cpus c).point = .process v ∧
      exists r, s'.reaps = s.reaps ++ [r] ∧ r.caller = v ∧ r.entry = s.procs q) := by
  cases step_move hstep with
  | run p hpt =>
    left
    change ((s.setProc p { s.procs p with state := .running }).procs q).parent = _
    rcases eq_or_ne q p with rfl | hne
    · rw [Sys.setProc_self]
      exact hq
    · rw [Sys.setProc_ne _ _ hne]
      exact hq
  | process p e pc hpt hcode hen =>
    by_cases ht : e.target p = some q
    case neg => exact .inl ((congrArg Proc.parent (apply_other (s := s) (c := c) ht)).trans hq)
    have hwrite := apply_target (s := s) (c := c) ht
    have hparent := congrArg Proc.parent hwrite
    cases e with
    | wake q' chan =>
      refine .inl (hparent.trans ?_)
      simp only [Eff.write, wakeup]
      split <;> exact hq
    | adopt q' =>
      cases ht
      obtain rfl := Option.some.inj (hcode.adopt_child.symm.trans hq)
      rcases hcode.adopt_point with ⟨status, hpc, _⟩
      exact .inr (.inl ⟨hparent, hpt, status, hpc⟩)
    | father q' =>
      cases ht
      rcases hcode.flow with ⟨pid, hpc, _⟩
      rw [h p q pid hpc] at hq
      cases hq
    | alloc q' r =>
      cases ht
      rw [(hslot.bare q hcode.alloc_unused).parent] at hq
      cases hq
    | reap q' b =>
      cases ht
      rcases hcode.reap_zombie with ⟨_, hmine, _⟩
      obtain rfl := Option.some.inj (hmine.symm.trans hq)
      exact .inr (.inr ⟨congrArg Proc.state hwrite, hpt, _, rfl, rfl, rfl⟩)
    | _ => exact .inl (hparent.trans hq)
  | _ => exact .inl hq

end Fatherless

theorem kwait_fault {c : Fin ncpu} {p : Fin nproc} {addr : Nat}
    {kids : Bool} (hp : (s.cpus c).point = .process p) (hpc : s.stack p = .waitScan addr q kids)
    (haddr : addr ≠ 0) (hparent : (s.procs q).parent = some p)
    (hzombie : (s.procs q).state = .zombie) (hstep : s.step c (.copyout false) = some s') :
    s'.procs = s.procs ∧ s'.reaps = s.reaps ∧ s'.plock q = none ∧
      s'.stack p = .waitRet (-1) := by
  have hcode : s.code p (.copyout false) (s.stack p) = some (.probe q, .waitRet (-1)) := by
    rw [hpc]
    cases addr with
    | zero => exact absurd rfl haddr
    | succ n => simp [Sys.code, Sys.kwaitLoop, hparent, hzombie]
  rw [Sys.step, hp] at hstep
  simp only [hcode, Option.bind_some] at hstep
  split at hstep
  · next hfree =>
      cases hstep
      exact ⟨rfl, rfl, hfree, Sys.goto_self _ _ _⟩
  · cases hstep

theorem exit_status_once {s : Sys nproc ncpu} (h : (system nproc ncpu).Reachable s) :
    (forall r, r ∈ s.reaps -> r.entry.state = .zombie ∧ r.entry.parent = some r.caller ∧
      exists x, x ∈ s.exits ∧ x.birth = r.entry.birth ∧ r.returned = x.pid ∧
        forall status, r.status = some status -> status = x.status) ∧
    (s.exits.map Exit.birth).Nodup ∧
    (s.reaps.map fun r => r.entry.birth).Nodup ∧
    (forall c ch s', s.step c ch = some s' -> forall q, (s.procs q).state ≠ .unused ->
      (s'.procs q).state = .unused -> exists r, s'.reaps = s.reaps ++ [r] ∧
        r.entry = s.procs q ∧ (s.cpus c).point = .process r.caller ∧
        s'.stack r.caller = .waitRet r.returned) ∧
    (forall c s' p (q : Fin nproc) addr kids, (s.cpus c).point = .process p ->
      s.stack p = .waitScan addr q kids -> addr ≠ 0 -> (s.procs q).parent = some p ->
      (s.procs q).state = .zombie -> s.step c (.copyout false) = some s' ->
      s'.procs = s.procs ∧ s'.reaps = s.reaps ∧ s'.plock q = none ∧
        s'.stack p = .waitRet (-1)) ∧
    (s.locks .wait = none ->
      (forall p chan addr, s.stack p = .sleepSet chan (.wait addr) ∨
          (s.stack p = .swtch (.sleep chan (.wait addr)) ∧ (s.procs p).state = .sleeping) ->
        forall q, (s.procs q).parent = some p -> (s.procs q).state ≠ .zombie) ∧
      forall p q, (s.procs p).state = .zombie -> (s.procs q).parent ≠ some p) ∧
    forall c ch s', s.step c ch = some s' -> forall p q, (s.procs q).parent = some p ->
      (s'.procs q).parent = some p ∨
      ((s'.procs q).parent = some s.initproc ∧ (s.cpus c).point = .process p ∧
        exists status, s.stack p = .reparent status q) ∨
      ((s'.procs q).state = .unused ∧ (s.cpus c).point = .process p ∧
        exists r, s'.reaps = s.reaps ++ [r] ∧ r.caller = p ∧ r.entry = s.procs q) := by
  rcases kidInv_reachable h with ⟨hlk, hexit, hkid⟩
  rcases slotInv_reachable h with ⟨hsw, hslot⟩
  refine ⟨?_, hexit.once, hexit.reaped_once, ?_, ?_, ?_, ?_⟩
  · intro r hr
    rcases hexit.right r hr with ⟨hstate, hparent, hpid, hstatus, hmem⟩
    exact ⟨hstate, hparent, r.entry.exited, hmem, rfl, hpid, hstatus⟩
  · intro c ch s' hstep q hused hfree
    exact freed_by_kwait hsw hslot hstep hused hfree
  · intro c s' p q addr kids hp hpc haddr hparent hzombie hstep
    exact kwait_fault hp hpc haddr hparent hzombie hstep
  · intro hfree
    refine ⟨?_, ?_⟩
    · intro p chan addr hsleep q hparent hzombie
      have hchan : chan = .proc p := by
        refine hkid.chan p chan ?_
        rcases hsleep with hst | ⟨hst, _⟩ <;> rw [hst] <;> exact ⟨rfl, rfl⟩
      subst hchan
      rcases hkid.owed q p ⟨.wait addr, rfl, hsleep⟩ hparent (.inl hzombie) with ⟨r, j, k, hr, hk⟩
      -- the scan that is still to come would hold `wait_lock`
      have hheld : s.locks .wait = some r := by
        rw [hlk .wait r, hr]
        exact hk
      rw [hfree] at hheld
      cases hheld
    · intro p q hzombie
      exact hkid.orphan q p (.inl hzombie)
  · intro c ch s' hstep p q hq
    exact (Fatherless.reachable h).child_step hslot hstep hq

/-- The first process forks and waits; its child runs on CPU 1 and exits with status 7. -/
def exitAndWait : List (Fin 2 × Choice 2) :=
  List.replicate 5 (0, .go) ++
  [(0, .kfork), (0, .go), (0, .alloc .ok), (0, .go), (0, .go), (0, .go)] ++
  List.replicate 6 (1, .go) ++ [(1, .kexit 7)] ++ List.replicate 33 (1, .go) ++
  [(0, .kwait 1)] ++ List.replicate 3 (0, .go)

theorem exit_status_once_child :
    exists s : Sys 2 2, (system 2 2).Reachable s ∧ exists r, r ∈ s.reaps ∧ r.caller = 0 ∧
      r.returned = 2 ∧ r.status = some 7 ∧ r.entry.state = .zombie ∧
      exists x, x ∈ s.exits ∧ r.returned = x.pid ∧ x.status = 7 := by
  have hcheck : (Lib.System.run (fun s l => Sys.step s l.1 l.2) (fun _ _ => True) (Sys.boot 2 2)
      exitAndWait).any (fun s => s.reaps.any fun r =>
        r.caller = 0 ∧ r.returned = 2 ∧ r.status = some 7) = true := by
    decide +kernel
  have hinit : (system 2 2).Reachable _ := .init (Sys.booted_boot 2 2)
  obtain ⟨s, hreach, hcheck⟩ := hinit.run_any (fun _ _ _ h => h) hcheck
  rcases List.any_eq_true.mp hcheck with ⟨r, hr, hfacts⟩
  rcases of_decide_eq_true hfacts with ⟨hcaller, hreturned, hstatus⟩
  rcases (exit_status_once hreach).1 r hr with ⟨hzombie, _, x, hx, _, hpid, hall⟩
  exact ⟨s, hreach, r, hr, hcaller, hreturned, hstatus, hzombie, x, hx, hpid,
    (hall 7 hstatus).symm⟩

end Sched
end Xv6
