import Xv6.Spinlock.Machine

/-!
# Interrupt state nests

`noff` and `intena` belong to a CPU, nesting belongs to a thread.  While a thread runs,
`noff` counts its open `push_off`s; for a process `intena` is the enable bit that the
outermost of them has found, and `sched` carries it from one CPU to the next.
-/

namespace Xv6
namespace Spinlock

open Lib
open Function (update update_self update_of_ne update_eq_self)

variable {ncpu nproc : Nat}

variable {cpu : Cpu nproc} {t : Thread} {c : Fin ncpu} {p : Fin nproc} {s' : Sys ncpu nproc}

/-- A thread and the CPU on which it runs.  An interrupt handler runs with interrupts off, also
after its own `pop_off`s. -/
structure Runs (cpu : Cpu nproc) (t : Thread) : Prop where
  depth : cpu.noff = t.opened.length
  off : t.opened ≠ [] -> cpu.sie = false
  read : forall old, t.pc = .off old -> old = cpu.sie
  handler : t.traps ≠ [] -> cpu.sie = false ∧ (t.opened ≠ [] -> cpu.intena = false)
  single : t.traps.length <= 1
  trap : forall trap, trap ∈ t.traps ->
    trap.depth = 0 ∧ forall old, trap.pc = .off old -> old = true

def Thread.Outermost (t : Thread) (b : Bool) : Prop :=
  t.opened.getLast? = some (some b)

structure Parked (t : Thread) (intena : Bool) : Prop where
  pc : t.pc = .run
  opened : t.opened.length = 1
  outer : forall b, t.Outermost b -> intena = b
  handler : t.traps ≠ [] -> intena = false
  single : t.traps.length <= 1
  trap : forall trap, trap ∈ t.traps ->
    trap.depth = 0 ∧ forall old, trap.pc = .off old -> old = true

structure Switched (t : Thread) : Prop where
  pc : t.pc = .run
  opened : t.opened.length = 1
  traps : t.traps = []

def Place.Fits (t : Thread) : Place -> Prop
  | .running => True
  | .forkret => t = .new
  | .sched intena => Parked t intena

structure Inv (s : Sys ncpu nproc) : Prop where
  runs : forall c, Runs (s.cpus c) (s.thread c)
  outer : forall c p, (s.cpus c).proc = some p ->
    forall b, (s.procs p).Outermost b -> (s.cpus c).intena = b
  switched : forall c p, (s.cpus c).proc = some p -> Switched (s.schedulers c)
  running : forall c p, (s.cpus c).proc = some p -> s.places p = .running
  alone : forall c d p, (s.cpus c).proc = some p -> (s.cpus d).proc = some p -> c = d
  places : forall p, (s.places p).Fits (s.procs p)
  panic : s.panic ≠ some .popOff ∧ s.panic ≠ some .popOffInterruptible ∧
    s.panic ≠ some .schedInterruptible

variable {s : Sys ncpu nproc}

theorem inv_booted (h : s.Booted) : Inv s := by
  have hnone : forall c p, (s.cpus c).proc ≠ some p := by
    intro c p hp
    rw [h.proc c] at hp
    cases hp
  have hthread : forall c, s.thread c = { pc := .run, opened := [], traps := [] } := by
    intro c
    rw [Sys.thread, h.proc c]
    exact h.schedulers c
  refine
    {
      runs := ?_
      outer := fun c p hp => absurd hp (hnone c p)
      switched := fun c p hp => absurd hp (hnone c p)
      running := fun c p hp => absurd hp (hnone c p)
      alone := fun c d p hp => absurd hp (hnone c p)
      places := ?_
      panic := ?_
    }
  · intro c
    rw [hthread c]
    refine ⟨h.noff c, fun hne => absurd rfl hne, ?_, fun hne => absurd rfl hne, Nat.zero_le _, ?_⟩
    · intro old hpc
      cases hpc
    · intro trap htrap
      cases htrap
  · intro p
    rw [h.places p, h.procs p]
    rfl
  · rw [h.panic]
    decide

/-!
## Steps of one thread

`intr_get`, `push_off`, `pop_off`, `intr_on`, `intr_off`, an interrupt and its return
change one CPU and the thread on it.
-/

section

variable (h : Runs cpu t)
include h

theorem Runs.intrGet :
    Runs cpu { t with pc := .off cpu.sie } where
  depth := h.depth
  off := h.off
  read := by
    intro old hpc
    cases hpc
    rfl
  handler := h.handler
  single := h.single
  trap := h.trap

theorem Runs.pushOff {old : Bool} (hpc : t.pc = .off old) :
    Runs (cpu.pushOff old) { t with pc := .run, opened := some cpu.sie :: t.opened } where
  depth := by
    change cpu.noff + 1 = t.opened.length + 1
    rw [h.depth]
  off := fun _ => rfl
  read := by
    intro _ hrun
    cases hrun
  handler := by
    intro htraps
    refine ⟨rfl, fun _ => ?_⟩
    change (if cpu.noff = 0 then old else cpu.intena) = false
    split
    · rw [h.read old hpc]
      exact (h.handler htraps).1
    · next hpos =>
        refine (h.handler htraps).2 ?_
        intro hnil
        rw [h.depth, hnil] at hpos
        exact hpos rfl
  single := h.single
  trap := h.trap

theorem Runs.outer_pushOff {old : Bool}
    (hpc : t.pc = .off old) (houter : forall b, t.Outermost b -> cpu.intena = b) (b : Bool)
    (hb : Thread.Outermost { t with pc := .run, opened := some cpu.sie :: t.opened } b) :
    (cpu.pushOff old).intena = b := by
  change (if cpu.noff = 0 then old else cpu.intena) = b
  change (some cpu.sie :: t.opened).getLast? = some (some b) at hb
  cases hopened : t.opened with
  | nil =>
    rw [hopened] at hb
    cases hb
    rw [h.depth, hopened, h.read old hpc]
    rfl
  | cons x rest =>
    rw [hopened, List.getLast?_cons_cons, ← hopened] at hb
    rw [h.depth, hopened, if_neg (by simp)]
    exact houter b hb

theorem Runs.popOff_ok (hne : t.opened ≠ []) :
    cpu.popOff = .ok
      { cpu with
        noff := cpu.noff - 1
        sie := if cpu.noff - 1 = 0 ∧ cpu.intena then true else cpu.sie } := by
  have hpos : 0 < t.opened.length := List.length_pos_iff.mpr hne
  have hnoff : ¬ cpu.noff < 1 := by
    rw [h.depth]
    omega
  have hsie : ¬ cpu.sie = true := by
    rw [h.off hne]
    exact Bool.false_ne_true
  unfold Cpu.popOff
  rw [if_neg hsie, if_neg hnoff]

theorem Runs.popOff {cpu' : Cpu nproc} (hne : t.opened ≠ [])
    (hpc : t.pc = .run) (hpop : cpu.popOff = .ok cpu') :
    Runs cpu' { t with opened := t.opened.tail } := by
  rw [h.popOff_ok hne] at hpop
  cases hpop
  have hlen : t.opened.tail.length = t.opened.length - 1 := List.length_tail
  constructor
  · change cpu.noff - 1 = t.opened.tail.length
    rw [hlen, h.depth]
  · intro htail
    have hpos : 0 < t.opened.tail.length := List.length_pos_iff.mpr htail
    have hdepth := h.depth
    change (if cpu.noff - 1 = 0 ∧ cpu.intena then true else cpu.sie) = false
    rw [if_neg (fun hzero => by omega)]
    exact h.off hne
  · intro old hoff
    change t.pc = .off old at hoff
    rw [hpc] at hoff
    cases hoff
  · intro htraps
    rcases h.handler htraps with ⟨hsie, hintena⟩
    refine ⟨?_, fun _ => hintena hne⟩
    change (if cpu.noff - 1 = 0 ∧ cpu.intena then true else cpu.sie) = false
    rw [hintena hne, if_neg (fun hon => Bool.false_ne_true hon.2)]
    exact hsie
  · exact h.single
  · exact h.trap

theorem Runs.setIntr (hpc : t.pc = .run)
    (hopened : t.opened = []) (htraps : t.traps = []) (on : Bool) :
    Runs { cpu with sie := on } t where
  depth := h.depth
  off := fun hne => absurd hopened hne
  read := by
    intro old hoff
    rw [hpc] at hoff
    cases hoff
  handler := fun hne => absurd htraps hne
  single := h.single
  trap := h.trap

theorem Runs.enabled (hsie : cpu.sie = true) :
    t.opened = [] ∧ t.traps = [] := by
  constructor
  · by_contra hne
    exact Bool.false_ne_true ((h.off hne).symm.trans hsie)
  · by_contra hne
    exact Bool.false_ne_true ((h.handler hne).1.symm.trans hsie)

theorem Runs.interrupt (hsie : cpu.sie = true) :
    Runs { cpu with sie := false }
      { t with
        pc := .run
        traps := { pc := t.pc, depth := t.opened.length } :: t.traps } := by
  rcases h.enabled hsie with ⟨hopened, htraps⟩
  constructor
  · exact h.depth
  · exact fun _ => rfl
  · intro old hoff
    cases hoff
  · exact fun _ => ⟨rfl, fun hne => absurd hopened hne⟩
  · rw [htraps]
    exact Nat.le_refl _
  · intro trap htrap
    rw [htraps] at htrap
    rw [List.mem_singleton.mp htrap, hopened]
    exact ⟨rfl, fun old hoff => (h.read old hoff).trans hsie⟩

theorem Runs.sret {trap : Trap} {traps : List Trap} (htraps : t.traps = trap :: traps)
    (hdepth : t.opened.length = trap.depth) :
    t.opened = [] ∧ Runs { cpu with sie := true } { t with pc := trap.pc, traps := traps } := by
  have hsingle := h.single
  rw [htraps, List.length_cons] at hsingle
  have hrest : traps = [] := List.eq_nil_of_length_eq_zero (by omega)
  have htrap : trap ∈ t.traps := by
    rw [htraps]
    exact List.mem_cons_self
  have hopened : t.opened = [] := by
    rw [(h.trap trap htrap).1] at hdepth
    exact List.eq_nil_of_length_eq_zero hdepth
  refine ⟨hopened, ?_⟩
  constructor
  · exact h.depth
  · exact fun hne => absurd hopened hne
  · exact (h.trap trap htrap).2
  · exact fun hne => absurd hrest hne
  · rw [hrest]
    exact Nat.zero_le _
  · rw [hrest]
    intro trap' hmem
    cases hmem

/-!
## Moving between CPUs
-/

theorem Runs.parked (hpc : t.pc = .run)
    (hnoff : cpu.noff = 1) (houter : forall b, t.Outermost b -> cpu.intena = b) :
    Parked t cpu.intena where
  pc := hpc
  opened := h.depth.symm.trans hnoff
  outer := houter
  handler := by
    intro htraps
    refine (h.handler htraps).2 ?_
    intro hnil
    have hdepth := h.depth
    rw [hnil, hnoff] at hdepth
    cases hdepth
  single := h.single
  trap := h.trap

end

theorem Switched.runs (h : Switched t) (hnoff : cpu.noff = 1)
    (hsie : cpu.sie = false) : Runs cpu t where
  depth := hnoff.trans h.opened.symm
  off := fun _ => hsie
  read := by
    intro old hoff
    rw [h.pc] at hoff
    cases hoff
  handler := fun hne => absurd h.traps hne
  single := by
    rw [h.traps]
    exact Nat.zero_le _
  trap := by
    rw [h.traps]
    intro trap hmem
    cases hmem

theorem Parked.runs (h : Parked t cpu.intena)
    (hnoff : cpu.noff = 1) (hsie : cpu.sie = false) : Runs cpu t where
  depth := hnoff.trans h.opened.symm
  off := fun _ => hsie
  read := by
    intro old hoff
    rw [h.pc] at hoff
    cases hoff
  handler := fun htraps => ⟨hsie, fun _ => h.handler htraps⟩
  single := h.single
  trap := h.trap

theorem new_switched : Switched Thread.new :=
  ⟨rfl, rfl, rfl⟩

theorem not_outermost_new (b : Bool) : ¬ Thread.new.Outermost b := by
  intro hb
  cases hb

/-!
## The invariant
-/

namespace Inv

variable {s : Sys ncpu nproc}

theorem thread_proc (hp : (s.cpus c).proc = some p) :
    s.thread c = s.procs p := by
  rw [Sys.thread, hp]

theorem thread_scheduler (hp : (s.cpus c).proc = none) :
    s.thread c = s.schedulers c := by
  rw [Sys.thread, hp]

theorem thread_congr {s' : Sys ncpu nproc} (hproc : (s'.cpus c).proc = (s.cpus c).proc)
    (hscheduler : s'.schedulers c = s.schedulers c)
    (hprocs : forall p, (s.cpus c).proc = some p -> s'.procs p = s.procs p) :
    s'.thread c = s.thread c := by
  cases hp : (s.cpus c).proc with
  | none => rw [thread_scheduler hp, thread_scheduler (hproc.trans hp), hscheduler]
  | some p => rw [thread_proc hp, thread_proc (hproc.trans hp), hprocs p hp]

section

variable (h : Inv s)
include h

theorem runs_of_ne {s' : Sys ncpu nproc} (hdc : d ≠ c)
    (hcpus : s'.cpus = update s.cpus c cpu) (hscheduler : s'.schedulers d = s.schedulers d)
    (hprocs : forall p, (s.cpus d).proc = some p -> s'.procs p = s.procs p) :
    Runs (s'.cpus d) (s'.thread d) := by
  have hcpu : s'.cpus d = s.cpus d := by
    rw [hcpus, update_of_ne hdc]
  rw [thread_congr (congrArg Cpu.proc hcpu) hscheduler hprocs, hcpu]
  exact h.runs d

theorem act (hproc : cpu.proc = (s.cpus c).proc) (hruns : Runs cpu t)
    (houter : forall p, (s.cpus c).proc = some p -> forall b, t.Outermost b -> cpu.intena = b) :
    Inv ((s.setThread c t).setCpu c cpu) := by
  cases hp : (s.cpus c).proc with
  | none =>
    have hset : s.setThread c t =
        { s with schedulers := update s.schedulers c t } := by
      rw [Sys.setThread, hp]
    rw [hset]
    have hother : forall d p, (update s.cpus c cpu d).proc = some p ->
        d ≠ c ∧ (s.cpus d).proc = some p := by
      intro d p hd
      by_cases hdc : d = c
      · rw [hdc, update_self, hproc, hp] at hd
        cases hd
      · rw [update_of_ne hdc] at hd
        exact ⟨hdc, hd⟩
    constructor
    · intro d
      by_cases hdc : d = c
      · subst hdc
        have hnone : (update s.cpus d cpu d).proc = none := by
          rw [update_self, hproc, hp]
        rw [thread_scheduler hnone]
        change Runs (update s.cpus d cpu d) (update s.schedulers d t d)
        rw [update_self, update_self]
        exact hruns
      · exact h.runs_of_ne hdc rfl (update_of_ne hdc _ _) (fun _ _ => rfl)
    · intro d p hd
      rcases hother d p hd with ⟨hdc, hold⟩
      change forall b, (s.procs p).Outermost b -> (update s.cpus c cpu d).intena = b
      rw [update_of_ne hdc]
      exact h.outer d p hold
    · intro d p hd
      rcases hother d p hd with ⟨hdc, hold⟩
      change Switched (update s.schedulers c t d)
      rw [update_of_ne hdc]
      exact h.switched d p hold
    · intro d p hd
      exact h.running d p (hother d p hd).2
    · intro d d' p hd hd'
      exact h.alone d d' p (hother d p hd).2 (hother d' p hd').2
    · exact h.places
    · exact h.panic
  | some p =>
    have hset : s.setThread c t = { s with procs := update s.procs p t } := by
      rw [Sys.setThread, hp]
    rw [hset]
    have hprocs : forall d, (update s.cpus c cpu d).proc = (s.cpus d).proc := by
      intro d
      by_cases hdc : d = c
      · rw [hdc, update_self, hproc]
      · rw [update_of_ne hdc]
    have hne : forall d q, d ≠ c -> (s.cpus d).proc = some q -> q ≠ p := by
      intro d q hdc hq hqp
      rw [hqp] at hq
      exact hdc (h.alone d c p hq hp)
    constructor
    · intro d
      by_cases hdc : d = c
      · subst hdc
        have hsome : (update s.cpus d cpu d).proc = some p := (hprocs d).trans hp
        rw [thread_proc hsome]
        change Runs (update s.cpus d cpu d) (update s.procs p t p)
        rw [update_self, update_self]
        exact hruns
      · exact h.runs_of_ne hdc rfl rfl (fun q hq => update_of_ne (hne d q hdc hq) _ _)
    · intro d q hd
      change forall b, (update s.procs p t q).Outermost b ->
        (update s.cpus c cpu d).intena = b
      change (update s.cpus c cpu d).proc = some q at hd
      rw [hprocs d] at hd
      by_cases hdc : d = c
      · subst hdc
        have hqp : q = p := Option.some.inj (hd.symm.trans hp)
        rw [hqp, update_self, update_self]
        exact houter p hp
      · rw [update_of_ne hdc, update_of_ne (hne d q hdc hd)]
        exact h.outer d q hd
    · intro d q hd
      exact h.switched d q ((hprocs d).symm.trans hd)
    · intro d q hd
      exact h.running d q ((hprocs d).symm.trans hd)
    · intro d d' q hd hd'
      exact h.alone d d' q ((hprocs d).symm.trans hd) ((hprocs d').symm.trans hd')
    · intro q
      by_cases hqp : q = p
      · change (s.places q).Fits _
        rw [hqp, h.running c p hp]
        trivial
      · change (s.places q).Fits (update s.procs p t q)
        rw [update_of_ne hqp]
        exact h.places q
    · exact h.panic

theorem act_thread (hruns : Runs (s.cpus c) t) (houter : forall p, (s.cpus c).proc = some p ->
      forall b, t.Outermost b -> (s.cpus c).intena = b) :
    Inv (s.setThread c t) := by
  have hact := h.act rfl hruns houter
  have hcpus : (s.setThread c t).cpus = s.cpus := by
    unfold Sys.setThread
    split <;> rfl
  have hsame : (s.setThread c t).setCpu c (s.cpus c) = s.setThread c t := by
    rw [Sys.setCpu, hcpus, update_eq_self, ← hcpus]
  rw [hsame] at hact
  exact hact

theorem act_cpu (hproc : cpu.proc = (s.cpus c).proc) (hruns : Runs cpu (s.thread c))
    (hintena : cpu.intena = (s.cpus c).intena) : Inv (s.setCpu c cpu) := by
  have houter : forall p, (s.cpus c).proc = some p ->
      forall b, (s.thread c).Outermost b -> cpu.intena = b := by
    intro p hp b hb
    rw [thread_proc hp] at hb
    rw [hintena]
    exact h.outer c p hp b hb
  have hact := h.act hproc hruns houter
  have hsame : s.setThread c (s.thread c) = s := by
    unfold Sys.setThread Sys.thread
    cases (s.cpus c).proc with
    | none =>
      change { s with schedulers := update s.schedulers c (s.schedulers c) } = s
      rw [update_eq_self]
    | some p =>
      change { s with procs := update s.procs p (s.procs p) } = s
      rw [update_eq_self]
  rw [hsame] at hact
  exact hact

theorem outer_thread (hp : (s.cpus c).proc = some p) :
    forall b, (s.thread c).Outermost b -> (s.cpus c).intena = b := by
  rw [thread_proc hp]
  exact h.outer c p hp

theorem popOff (hstep : s.step (.popOff c) = some s') :
    Inv s' := by
  have hruns := h.runs c
  rw [Sys.step] at hstep
  split at hstep
  · next hok =>
      have hne : (s.thread c).opened ≠ [] := by
        intro hnil
        rw [hnil] at hok
        exact absurd hok.2 (Nat.not_lt_zero _)
      rw [hruns.popOff_ok hne] at hstep
      cases hstep
      refine h.act rfl (hruns.popOff hne hok.1 (hruns.popOff_ok hne)) ?_
      intro p hp b hb
      refine h.outer_thread hp b ?_
      change (s.thread c).opened.tail.getLast? = some (some b) at hb
      change (s.thread c).opened.getLast? = some (some b)
      cases hopened : (s.thread c).opened with
      | nil => exact absurd hopened hne
      | cons x rest =>
        rw [hopened, List.tail_cons] at hb
        cases hrest : rest with
        | nil =>
          rw [hrest] at hb
          cases hb
        | cons y rest' =>
          rw [List.getLast?_cons_cons, ← hrest]
          exact hb
  · cases hstep

theorem leave (hp : (s.cpus c).proc = some p)
    (hnoff : (s.cpus c).noff = 1) (hsie : (s.cpus c).sie = false) (hpc : (s.procs p).pc = .run) :
    Inv
      { s.setCpu c { s.cpus c with proc := none } with
        places := update s.places p (.sched (s.cpus c).intena) } := by
  have hruns := h.runs c
  rw [thread_proc hp] at hruns
  generalize hcpu : ({ s.cpus c with proc := none } : Cpu nproc) = cpu
  have hnone : cpu.proc = none := by
    rw [← hcpu]
  have hother : forall d q, (update s.cpus c cpu d).proc = some q ->
      d ≠ c ∧ (s.cpus d).proc = some q := by
    intro d q hd
    by_cases hdc : d = c
    · rw [hdc, update_self, hnone] at hd
      cases hd
    · rw [update_of_ne hdc] at hd
      exact ⟨hdc, hd⟩
  have hne : forall d q, d ≠ c -> (s.cpus d).proc = some q -> q ≠ p := by
    intro d q hdc hq hqp
    rw [hqp] at hq
    exact hdc (h.alone d c p hq hp)
  constructor
  · intro d
    by_cases hdc : d = c
    · subst hdc
      have hd : (update s.cpus d cpu d).proc = none := by
        rw [update_self, hnone]
      rw [thread_scheduler hd]
      change Runs (update s.cpus d cpu d) _
      rw [update_self, ← hcpu]
      exact (h.switched d p hp).runs hnoff hsie
    · exact h.runs_of_ne hdc rfl rfl (fun _ _ => rfl)
  · intro d q hd
    rcases hother d q hd with ⟨hdc, hold⟩
    change forall b, (s.procs q).Outermost b -> (update s.cpus c cpu d).intena = b
    rw [update_of_ne hdc]
    exact h.outer d q hold
  · intro d q hd
    exact h.switched d q (hother d q hd).2
  · intro d q hd
    rcases hother d q hd with ⟨hdc, hold⟩
    change update s.places p _ q = .running
    rw [update_of_ne (hne d q hdc hold)]
    exact h.running d q hold
  · intro d d' q hd hd'
    exact h.alone d d' q (hother d q hd).2 (hother d' q hd').2
  · intro q
    change (update s.places p (.sched (s.cpus c).intena) q).Fits (s.procs q)
    by_cases hqp : q = p
    · rw [hqp, update_self]
      exact hruns.parked hpc hnoff (h.outer c p hp)
    · rw [update_of_ne hqp]
      exact h.places q
  · exact h.panic

theorem sched (hstep : s.step (.sched c) = some s') : Inv s' := by
  rw [Sys.step] at hstep
  split at hstep
  · cases hstep
  · next p hp =>
      have hruns := h.runs c
      split at hstep
      · next hpc =>
          unfold Cpu.schedCheck at hstep
          by_cases hnoff : (s.cpus c).noff = 1
          · have hsie : (s.cpus c).sie = false := by
              refine hruns.off ?_
              intro hnil
              have hdepth := hruns.depth
              rw [hnil, hnoff] at hdepth
              cases hdepth
            rw [if_neg (not_not.mpr hnoff), hsie] at hstep
            cases hstep
            exact h.leave hp hnoff hsie hpc
          · rw [if_pos hnoff] at hstep
            cases hstep
            refine ⟨h.runs, h.outer, h.switched, h.running, h.alone, h.places, ?_⟩
            refine ⟨?_, ?_, ?_⟩ <;> exact fun heq => by cases heq
      · cases hstep

theorem enter (hswitched : Switched (s.schedulers c)) (hplace : s.places p ≠ .running)
    (hproc : cpu.proc = some p) (hruns : Runs cpu (s.procs p))
    (houter : forall b, (s.procs p).Outermost b -> cpu.intena = b) :
    Inv
      { s.setCpu c cpu with
        places := update s.places p .running } := by
  have hne : forall d q, (s.cpus d).proc = some q -> q ≠ p := by
    intro d q hq hqp
    rw [hqp] at hq
    exact hplace (h.running d p hq)
  have hcase : forall d q, (update s.cpus c cpu d).proc = some q ->
      (d = c ∧ q = p) ∨ (d ≠ c ∧ (s.cpus d).proc = some q) := by
    intro d q hd
    by_cases hdc : d = c
    · rw [hdc, update_self, hproc] at hd
      exact .inl ⟨hdc, (Option.some.inj hd).symm⟩
    · rw [update_of_ne hdc] at hd
      exact .inr ⟨hdc, hd⟩
  constructor
  · intro d
    by_cases hdc : d = c
    · subst hdc
      have hd : (update s.cpus d cpu d).proc = some p := by
        rw [update_self, hproc]
      rw [thread_proc hd]
      change Runs (update s.cpus d cpu d) _
      rw [update_self]
      exact hruns
    · exact h.runs_of_ne hdc rfl rfl (fun _ _ => rfl)
  · intro d q hd
    change forall b, (s.procs q).Outermost b -> (update s.cpus c cpu d).intena = b
    rcases hcase d q hd with ⟨hdc, hqp⟩ | ⟨hdc, hold⟩
    · rw [hdc, hqp, update_self]
      exact houter
    · rw [update_of_ne hdc]
      exact h.outer d q hold
  · intro d q hd
    rcases hcase d q hd with ⟨hdc, _⟩ | ⟨_, hold⟩
    · rw [hdc]
      exact hswitched
    · exact h.switched d q hold
  · intro d q hd
    change update s.places p .running q = .running
    rcases hcase d q hd with ⟨_, hqp⟩ | ⟨_, hold⟩
    · rw [hqp, update_self]
    · rw [update_of_ne (hne d q hold)]
      exact h.running d q hold
  · intro d d' q hd hd'
    rcases hcase d q hd with ⟨hdc, hqp⟩ | ⟨_, hold⟩
    · rcases hcase d' q hd' with ⟨hdc', _⟩ | ⟨_, hold'⟩
      · rw [hdc, hdc']
      · exact absurd hqp (hne d' q hold')
    · rcases hcase d' q hd' with ⟨_, hqp⟩ | ⟨_, hold'⟩
      · exact absurd hqp (hne d q hold)
      · exact h.alone d d' q hold hold'
  · intro q
    change (update s.places p .running q).Fits (s.procs q)
    by_cases hqp : q = p
    · rw [hqp, update_self]
      trivial
    · rw [update_of_ne hqp]
      exact h.places q
  · exact h.panic

theorem swtch (hstep : s.step (.swtch c p) = some s') : Inv s' := by
  rw [Sys.step] at hstep
  split at hstep
  · next hok =>
      rcases hok with ⟨hnone, hpc, hopened, htraps⟩
      have hruns := h.runs c
      rw [thread_scheduler hnone] at hruns
      have hswitched : Switched (s.schedulers c) := ⟨hpc, hopened, htraps⟩
      have hnoff : (s.cpus c).noff = 1 := hruns.depth.trans hopened
      have hsie : (s.cpus c).sie = false := by
        refine hruns.off ?_
        intro hnil
        rw [hnil] at hopened
        cases hopened
      have hfits := h.places p
      cases hplace : s.places p with
      | running =>
        rw [hplace] at hstep
        cases hstep
      | forkret =>
        rw [hplace] at hstep hfits
        cases hstep
        change s.procs p = .new at hfits
        refine h.enter hswitched (by rw [hplace]; decide) rfl ?_ ?_
        · rw [hfits]
          exact new_switched.runs hnoff hsie
        · intro b hb
          rw [hfits] at hb
          exact absurd hb (not_outermost_new b)
      | sched intena =>
        rw [hplace] at hstep hfits
        cases hstep
        refine h.enter hswitched ?_ rfl ?_ ?_
        · rw [hplace]
          exact fun heq => by cases heq
        · exact Parked.runs hfits hnoff hsie
        · exact Parked.outer hfits
  · cases hstep

theorem allocproc (hstep : s.step (.allocproc p) = some s') : Inv s' := by
  rw [Sys.step] at hstep
  split at hstep
  · next hplace =>
      cases hstep
      have hne : forall d q, (s.cpus d).proc = some q -> q ≠ p := by
        intro d q hq hqp
        rw [hqp] at hq
        exact hplace (h.running d p hq)
      constructor
      · intro d
        have hthread : Sys.thread
            { s with
              procs := update s.procs p .new
              places := update s.places p .forkret } d = s.thread d :=
          thread_congr rfl rfl (fun q hq => update_of_ne (hne d q hq) _ _)
        rw [hthread]
        exact h.runs d
      · intro d q hd
        change forall b, (update s.procs p .new q).Outermost b -> _
        rw [update_of_ne (hne d q hd)]
        exact h.outer d q hd
      · exact h.switched
      · intro d q hd
        change update s.places p .forkret q = .running
        rw [update_of_ne (hne d q hd)]
        exact h.running d q hd
      · exact h.alone
      · intro q
        change (update s.places p .forkret q).Fits (update s.procs p .new q)
        by_cases hqp : q = p
        · rw [hqp, update_self, update_self]
          rfl
        · rw [update_of_ne hqp, update_of_ne hqp]
          exact h.places q
      · exact h.panic
  · cases hstep

theorem step {a : Action ncpu nproc} (hstep : s.step a = some s') : Inv s' := by
  cases a with
  | intrGet c =>
    rw [Sys.step] at hstep
    split at hstep
    · cases hstep
      exact h.act_thread (h.runs c).intrGet (fun p hp => h.outer_thread hp)
    · cases hstep
  | pushOff c =>
    rw [Sys.step] at hstep
    split at hstep
    · cases hstep
    · next old hpc =>
        cases hstep
        refine h.act rfl ((h.runs c).pushOff hpc) ?_
        intro p hp
        exact (h.runs c).outer_pushOff hpc (h.outer_thread hp)
  | popOff c => exact h.popOff hstep
  | setIntr c on =>
    rw [Sys.step] at hstep
    split at hstep
    · next hok =>
        cases hstep
        exact h.act_cpu rfl ((h.runs c).setIntr hok.1 hok.2.1 hok.2.2 on) rfl
    · cases hstep
  | interrupt c =>
    rw [Sys.step] at hstep
    split at hstep
    · next hsie =>
        cases hstep
        exact h.act rfl ((h.runs c).interrupt hsie) (fun p hp => h.outer_thread hp)
    · cases hstep
  | sret c =>
    rw [Sys.step] at hstep
    split at hstep
    · cases hstep
    · next trap traps htraps =>
        split at hstep
        · next hok =>
            cases hstep
            exact h.act rfl ((h.runs c).sret htraps hok.2).2 (fun p hp => h.outer_thread hp)
        · cases hstep
  | sched c => exact h.sched hstep
  | swtch c p => exact h.swtch hstep
  | allocproc p => exact h.allocproc hstep

end

theorem of_reachable (hreach : (system ncpu nproc).Reachable s) : Inv s :=
  hreach.invariant (fun _ hinit => inv_booted hinit) (fun _ _ _ hinv _ hstep => hinv.step hstep.2)

end Inv

/-!
## What the kernel relies on
-/

structure Nested (s : Sys ncpu nproc) : Prop where
  noff : forall c, (s.cpus c).noff = (s.thread c).opened.length
  off : forall c, 0 < (s.cpus c).noff -> (s.cpus c).sie = false
  panic : s.panic ≠ some .popOff ∧ s.panic ≠ some .popOffInterruptible
  restored : forall c p b s', (s.cpus c).proc = some p -> (s.procs p).opened = [some b] ->
    s.step (.popOff c) = some s' -> (s'.cpus c).noff = 0 ∧ (s'.cpus c).sie = b

theorem Inv.restored {b : Bool} (h : Inv s)
    (hp : (s.cpus c).proc = some p) (hopened : (s.procs p).opened = [some b])
    (hstep : s.step (.popOff c) = some s') :
    (s'.cpus c).noff = 0 ∧ (s'.cpus c).sie = b := by
  have hruns := h.runs c
  have hintena : (s.cpus c).intena = b := by
    refine h.outer c p hp b ?_
    rw [Thread.Outermost, hopened]
    rfl
  rw [Inv.thread_proc hp] at hruns
  have hne : (s.procs p).opened ≠ [] := by
    rw [hopened]
    exact List.cons_ne_nil _ _
  have hnoff : (s.cpus c).noff = 1 := by
    rw [hruns.depth, hopened]
    rfl
  rw [Sys.step, hruns.popOff_ok hne] at hstep
  split at hstep
  · cases hstep
    rw [Sys.setCpu]
    simp only [update_self, hnoff, hintena, hruns.off hne]
    cases b <;> simp
  · cases hstep

theorem interrupts_nest (hreach : (system ncpu nproc).Reachable s) :
    Nested s := by
  have h := Inv.of_reachable hreach
  refine
    {
      noff := fun c => (h.runs c).depth
      off := ?_
      panic := ⟨h.panic.1, h.panic.2.1⟩
      restored := fun c p b s' hp hopened hstep => h.restored hp hopened hstep
    }
  intro c hpos
  refine (h.runs c).off ?_
  intro hnil
  rw [(h.runs c).depth, hnil] at hpos
  exact absurd hpos (Nat.lt_irrefl _)

/-- A process acquires a lock with interrupts on and sleeps on CPU 0, and is picked by CPU 1. -/
def migration : List (Action 2 1) :=
  [.intrGet 0, .pushOff 0, .swtch 0 0, .popOff 0, .setIntr 0 true, .intrGet 0, .pushOff 0,
    .sched 0, .popOff 0, .intrGet 1, .pushOff 1, .swtch 1 0]

theorem interrupts_nest_migrated :
    exists s s' : Sys 2 1, (system 2 1).Reachable s ∧ s.step (.popOff 1) = some s' ∧
      (s.cpus 1).sie = false ∧ (s'.cpus 1).sie = true ∧ Nested s := by
  have hcheck : (System.run Sys.next (fun _ _ => True) Sys.booted migration).any (fun s =>
      (s.step (.popOff 1)).any fun s' =>
        decide ((s.cpus 1).sie = false ∧ (s'.cpus 1).sie = true)) = true := by
    decide +kernel
  have hinit : (system 2 1).ReachableVia (fun _ _ => True) Sys.booted :=
    .init ⟨fun _ => rfl, fun _ => rfl, fun _ => rfl, fun _ => rfl, fun _ => rfl, rfl⟩
  obtain ⟨s, hreach, hcheck⟩ := hinit.run_any (fun _ _ _ hnext => Sys.next_step hnext) hcheck
  obtain ⟨s', hstep, hcheck⟩ := (Option.any_eq_true _ _).mp hcheck
  have hbits := of_decide_eq_true hcheck
  exact ⟨s, s', hreach, hstep, hbits.1, hbits.2, interrupts_nest hreach⟩

end Spinlock
end Xv6
