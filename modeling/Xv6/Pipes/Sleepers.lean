import Xv6.Pipes.Machine

/-!
# No process sleeps beside work

A process that sleeps on a pipe waits for a condition to change.  Whoever changes
it under `pi->lock` owes the sleepers a `wakeup` before it gives the lock back.
The debt is read off the program point of the holder: it is paid slot by slot by
the scan of `wakeup`.
-/

namespace Xv6
namespace Pipes

open Lib

/-- The point of the lock holder still leads to a `wakeup(c)` that visits slot `v`. -/
def Pc.Owes (c : Chan) (v : Nat) : Pc -> Prop
  | .body (.writeLoop w) => c = .nread ∧ w.pending = true
  | .body (.readFor _ _) => c = .nwrite
  | .wake c' j _ => c' = c ∧ j <= v
  | _ => False

/-- Process `p` sleeps on `c`, or has released `pi->lock` in order to. -/
def Committed {nproc : Nat} (s : Sys nproc) (p : Fin nproc) (c : Chan) : Prop :=
  (exists e, (s.procs p).pc = .sleepSet c e) ∨
    ((s.procs p).state = .sleeping ∧ (s.procs p).chan = some c)

def Pc.dozing : Pc -> Bool
  | .sleepSched _ _ => true
  | .asleep _ _ => true
  | _ => false

def Pc.inSleep : Pc -> Bool
  | .sleepSet _ _ => true
  | pc => pc.dozing

/-- A writer that finds itself killed has stored nothing since it took `pi->lock`. -/
def Announced {nproc : Nat} (s : Sys nproc) (l : Fin nproc × Action) : Prop :=
  match (s.procs l.1).pc with
  | .body (.writeLoop w) =>
    w.pending = true -> (w.i : Int) < w.n -> (s.procs l.1).killed = false
  | _ => True

instance {nproc : Nat} (s : Sys nproc) (l : Fin nproc × Action) : Decidable (Announced s l) := by
  unfold Announced
  split <;> infer_instance

/-!
## Debts under the lock
-/

theorem work_owes {pi : Pipe} {killed : Bool} {cp : Copy} {b : Body} {r : Pipe × Pc × Event}
    {c : Chan} {v : Nat} (h : work pi killed cp b = some r) (hb : b.Knows pi) (hann : c = .nread ->
      forall w, b = .writeLoop w -> w.pending = true -> (w.i : Int) < w.n -> killed = false)
    (hc : pi.Blocked c ∨ (Pc.body b).Owes c v) : r.1.Blocked c ∨ r.2.1.Owes c v := by
  cases b with
  | writeLoop w =>
    simp only [work, Option.some.injEq] at h
    subst h
    have hwake : forall k : After, (pi.Blocked c ∨ (Pc.body (.writeLoop w)).Owes c v) ->
        pi.Blocked c ∨ (Pc.wake .nread 0 k).Owes c v := by
      rintro k (hblocked | howes)
      · exact .inl hblocked
      · exact .inr ⟨howes.1.symm, Nat.zero_le _⟩
    unfold pipewriteIter
    split
    · next hi =>
        split
        · next hstop =>
            -- the only exit without a wakeup: no byte was stored since the lock was taken
            rcases hc with hblocked | ⟨hchan, hpending⟩
            · exact .inl hblocked
            · have hopen := hb hpending
              have halive := hann hchan w rfl hpending hi
              simp [hopen, halive] at hstop
        · split
          · exact hwake _ hc
          · next hfull =>
              cases cp with
              | bad => exact hwake _ hc
              | ok ch =>
                cases c with
                | nread => exact .inr ⟨rfl, rfl⟩
                | nwrite =>
                  rcases hc with hblocked | ⟨hchan, _⟩
                  · exact absurd hblocked.1 hfull
                  · cases hchan
    · exact hwake _ hc
  | readLoop n =>
    simp only [work, Option.some.injEq] at h
    subst h
    rcases hc with hblocked | howes
    · unfold pipereadWait
      split
      · split
        · exact .inl hblocked
        · exact .inl hblocked
      · exact .inl hblocked
    · cases howes
  | readFor n i =>
    simp only [work, Option.some.injEq] at h
    subst h
    have hwake : forall k : After, (pi.Blocked c ∨ (Pc.body (.readFor n i)).Owes c v) ->
        pi.Blocked c ∨ (Pc.wake .nwrite 0 k).Owes c v := by
      rintro k (hblocked | howes)
      · exact .inl hblocked
      · exact .inr ⟨howes.symm, Nat.zero_le _⟩
    unfold pipereadIter
    split
    · split
      · exact hwake _ hc
      · next hempty =>
          have hchan : c = .nwrite := by
            rcases hc with hblocked | howes
            · cases c with
              | nread => exact absurd hblocked.1 hempty
              | nwrite => rfl
            · exact howes
          subst hchan
          cases cp with
          | bad => exact .inr ⟨rfl, Nat.zero_le _⟩
          | ok ch => exact .inr rfl
    · exact hwake _ hc
  | close writable =>
    simp only [work, Option.some.injEq] at h
    subst h
    rcases hc with hblocked | howes
    · -- the end that is closed is the one whose channel is woken
      cases writable <;> cases c
      · exact .inl hblocked
      · exact .inr ⟨rfl, Nat.zero_le _⟩
      · exact .inr ⟨rfl, Nat.zero_le _⟩
      · exact .inl hblocked
    · cases howes
  | closed => cases h
  | ret r => cases h
  | readRet n r good => cases h

theorem not_owes_of_work_none {pi : Pipe} {killed : Bool} {cp : Copy} {b : Body} {c : Chan}
    {v : Nat} (h : work pi killed cp b = none) : ¬ (Pc.body b).Owes c v := by
  cases b with
  | writeLoop w => cases h
  | readLoop n => cases h
  | readFor n i => cases h
  | close writable => cases h
  | closed => exact id
  | ret r => exact id
  | readRet n r good => exact id

/-!
## The invariant
-/

structure SleepInv {nproc : Nat} (watched : Chan -> Prop) (s : Sys nproc) : Prop where
  asleep : forall p, (s.procs p).state = .sleeping -> (s.procs p).pc.dozing = true
  blocked : forall p c, watched c -> Committed s p c ->
    s.pipe.Blocked c ∨ exists q, s.lock = some q ∧ (s.procs q).pc.Owes c p

namespace SleepInv

variable {nproc : Nat} {watched : Chan -> Prop} {s s' : Sys nproc} {p : Fin nproc}

theorem of_fresh (h : s.Fresh) : SleepInv watched s := by
  constructor
  · intro p hp
    rw [h.state p] at hp
    cases hp
  · rintro p c _ (⟨e, hpc⟩ | ⟨hstate, _⟩)
    · rw [h.pc p] at hpc
      cases hpc
    · rw [h.state p] at hstate
      cases hstate

section

variable (h : SleepInv watched s)
include h

theorem not_committed (hp : (s.procs p).pc.inSleep = false) (c : Chan) :
    ¬ Committed s p c := by
  rintro (⟨e, hpc⟩ | ⟨hstate, _⟩)
  · rw [hpc] at hp
    cases hp
  · have hdoze := h.asleep p hstate
    cases hpc : (s.procs p).pc <;> simp_all [Pc.inSleep, Pc.dozing]

theorem blocked_of_free (hfree : s.lock = none) {q : Fin nproc} {c : Chan}
    (hc : watched c) (hq : Committed s q c) : s.pipe.Blocked c := by
  rcases h.blocked q c hc hq with hblocked | ⟨o, hlock, _⟩
  · exact hblocked
  · rw [hfree] at hlock
    cases hlock

theorem blocked_of_holder (hlock : s.lock = some p) {q : Fin nproc}
    {c : Chan} (hc : watched c) (hq : Committed s q c) :
    s.pipe.Blocked c ∨ (s.procs p).pc.Owes c q := by
  rcases h.blocked q c hc hq with hblocked | ⟨o, hlock', howes⟩
  · exact .inl hblocked
  · rw [hlock] at hlock'
    cases hlock'
    exact .inr howes

theorem setProc {x : Proc} (hasleep : x.state = .sleeping -> x.pc.dozing = true)
    (hcom : forall c, Committed (s.setProc p x) p c -> Committed s p c)
    (howes : forall c (v : Fin nproc), Committed s v c -> (s.procs p).pc.Owes c v ->
      x.pc.Owes c v) : SleepInv watched (s.setProc p x) := by
  have hback : forall q c, Committed (s.setProc p x) q c -> Committed s q c := by
    intro q c hq
    rcases eq_or_ne q p with rfl | hne
    · exact hcom c hq
    · unfold Committed at hq
      rw [Sys.setProc_ne _ _ hne] at hq
      exact hq
  constructor
  · intro q hq
    rcases eq_or_ne q p with rfl | hne
    · rw [Sys.setProc_self] at hq ⊢
      exact hasleep hq
    · rw [Sys.setProc_ne _ _ hne] at hq ⊢
      exact h.asleep q hq
  · intro q c hc hq
    have hold := hback q c hq
    rcases h.blocked q c hc hold with hblocked | ⟨o, hlock, ho⟩
    · exact .inl hblocked
    · refine .inr ⟨o, hlock, ?_⟩
      rcases eq_or_ne o p with rfl | hne
      · rw [Sys.setProc_self]
        exact howes c q hold ho
      · rw [Sys.setProc_ne _ _ hne]
        exact ho

theorem goto_awake {pc : Pc} (hp : (s.procs p).pc.inSleep = false) (hpc : pc.inSleep = false)
    (howes : forall c (v : Fin nproc), Committed s v c -> (s.procs p).pc.Owes c v -> pc.Owes c v) :
    SleepInv watched (s.goto p pc) := by
  have hawake : (s.procs p).state ≠ .sleeping := by
    intro hstate
    have hdoze := h.asleep p hstate
    cases hpc : (s.procs p).pc <;> simp_all [Pc.inSleep, Pc.dozing]
  refine h.setProc (fun hstate => absurd hstate hawake) ?_ howes
  rintro c (⟨e, hset⟩ | ⟨hstate, _⟩)
  · rw [Sys.setProc_self] at hset
    dsimp only at hset
    rw [hset] at hpc
    cases hpc
  · rw [Sys.setProc_self] at hstate
    exact absurd hstate hawake

theorem wakeOne {c : Chan} {v : Fin nproc} :
    SleepInv watched (s.wakeOne c v) ∧
      (forall q d, Committed (s.wakeOne c v) q d -> Committed s q d) ∧
      ((s.procs v).pc.holdsOwn = false -> ¬ Committed (s.wakeOne c v) v c) := by
  unfold Sys.wakeOne
  split
  · next hsleep =>
      have hcom : forall q d, Committed (s.setProc v { s.procs v with state := .runnable }) q d ->
          Committed s q d := by
        intro q d hq
        unfold Committed at hq
        rcases eq_or_ne q v with rfl | hne
        · rw [Sys.setProc_self] at hq
          rcases hq with hset | ⟨hstate, _⟩
          · exact .inl hset
          · cases hstate
        · rw [Sys.setProc_ne _ _ hne] at hq
          exact hq
      refine ⟨h.setProc (fun hstate => by cases hstate) (fun d => hcom v d) fun _ _ _ ho => ho,
        hcom, ?_⟩
      rintro hown (⟨e, hset⟩ | ⟨hstate, _⟩)
      · rw [Sys.setProc_self] at hset
        dsimp only at hset
        rw [hset] at hown
        cases hown
      · rw [Sys.setProc_self] at hstate
        cases hstate
  · next hawake =>
      refine ⟨h, fun _ _ hq => hq, ?_⟩
      rintro hown (⟨e, hset⟩ | hsleep)
      · rw [hset] at hown
        cases hown
      · exact hawake hsleep

theorem kill (v : Fin nproc) : SleepInv watched (s.killOne v) := by
  have hawake : (if (s.procs v).state = .sleeping then ProcState.runnable
      else (s.procs v).state) ≠ .sleeping := by
    split
    · intro hcase
      cases hcase
    · next hne => exact hne
  refine h.setProc (fun hstate => absurd hstate hawake) ?_ fun _ _ _ ho => ho
  rintro c (hset | ⟨hstate, _⟩)
  · rw [Sys.setProc_self] at hset
    exact .inl hset
  · rw [Sys.setProc_self] at hstate
    exact absurd hstate hawake

theorem unlock (hlock : s.lock = some p)
    (howes : forall c (v : Fin nproc), ¬ (s.procs p).pc.Owes c v) : SleepInv watched s.unlock := by
  refine ⟨h.asleep, ?_⟩
  intro q c hc hq
  rcases h.blocked_of_holder hlock hc hq with hblocked | ho
  · exact .inl hblocked
  · exact absurd ho (howes c q)

theorem work (hlock : LockInv s) {l : Fin nproc × Action} (hl : l.1 = p)
    (hann : watched .nread -> Announced s l) {cp : Copy} {b : Body} {r : Pipe × Pc × Event}
    (hpc : (s.procs p).pc = .body b) (hr : Pipes.work s.pipe (s.procs p).killed cp b = some r) :
    SleepInv watched (({ s with pipe := r.1 }.goto p r.2.1).record r.2.2) := by
  have hheld : s.lock = some p := hlock.lock_eq (by rw [hpc]; rfl)
  have hknows := hlock.knows p
  rw [hpc] at hknows
  have hann' : watched .nread -> forall w, b = .writeLoop w -> w.pending = true ->
      (w.i : Int) < w.n -> (s.procs p).killed = false := by
    rintro hwatched w rfl
    subst hl
    simpa [Announced, hpc] using hann hwatched
  have hnew : r.2.1.inSleep = false := by
    have hholds := (work_knows hr hknows).1
    cases hpc' : r.2.1 <;> simp_all [Pc.inSleep, Pc.dozing, Pc.holdsPipe]
  have hcom : forall q c, Committed (s.goto p r.2.1) q c -> Committed s q c := by
    intro q c hq
    unfold Committed at hq
    rcases eq_or_ne q p with rfl | hne
    · rw [Sys.goto_pc_self] at hq
      rcases hq with ⟨e, hset⟩ | hsleep
      · rw [hset] at hnew
        cases hnew
      · exact .inr (by simpa [Sys.goto] using hsleep)
    · rw [Sys.goto_ne _ _ hne] at hq
      exact hq
  constructor
  · intro q hq
    rw [Sys.record_procs] at hq ⊢
    rcases eq_or_ne q p with rfl | hne
    · have hstate : (s.procs q).state = .sleeping := by simpa [Sys.goto] using hq
      have hdoze := h.asleep q hstate
      rw [hpc] at hdoze
      cases hdoze
    · rw [Sys.goto_ne _ _ hne] at hq ⊢
      exact h.asleep q hq
  · intro q c hc hq
    have hq' : Committed (s.goto p r.2.1) q c := by
      unfold Committed at hq ⊢
      rw [Sys.record_procs] at hq
      exact hq
    have hold := h.blocked_of_holder hheld hc (hcom q c hq')
    rw [hpc] at hold
    rcases work_owes hr hknows (fun heq => hann' (heq ▸ hc)) hold with hblocked | howes
    · refine .inl ?_
      rw [Sys.record_pipe]
      exact hblocked
    · refine .inr ⟨p, ?_, ?_⟩
      · rw [Sys.record_lock]
        exact hheld
      · rw [Sys.record_procs, Sys.goto_pc_self]
        exact howes

theorem move (hlock : LockInv s) {l : Fin nproc × Action} (hl : l.1 = p)
    (hann : watched .nread -> Announced s l) (hmove : s.Move p s') : SleepInv watched s' := by
  cases hmove with
  | write n hpc =>
    have hcalls : SleepInv watched { s with calls := s.calls + 1 } := ⟨h.asleep, h.blocked⟩
    refine hcalls.goto_awake (by rw [hpc]; rfl) rfl ?_
    intro c v _ howes
    rw [hpc] at howes
    exact howes
  | read n hpc =>
    refine h.goto_awake (by rw [hpc]; rfl) rfl ?_
    intro c v _ howes
    rw [hpc] at howes
    exact howes
  | close writable hpc =>
    refine h.goto_awake (by rw [hpc]; rfl) rfl ?_
    intro c v _ howes
    rw [hpc] at howes
    exact howes
  | kill v hown => exact h.kill v
  | nobody => exact h
  | acquire e hpc hfree =>
    have hgo : SleepInv watched (s.goto p (.body e.body)) := by
      refine h.goto_awake (by rw [hpc]; rfl) rfl ?_
      intro c v _ howes
      rw [hpc] at howes
      cases howes
    exact ⟨hgo.asleep, fun q c hc hq => .inl (hgo.blocked_of_free hfree hc hq)⟩
  | work c b r hpc hr => exact h.work hlock hl hann hpc hr
  | release c b hpc hr =>
    have hheld : s.lock = some p := hlock.lock_eq (by rw [hpc]; rfl)
    have hdebt : forall c (v : Fin nproc), ¬ (s.procs p).pc.Owes c v := by
      intro c v
      rw [hpc]
      exact not_owes_of_work_none hr
    have hfree : SleepInv watched { s.unlock with freed := b.frees s.pipe } :=
      ⟨h.asleep, (h.unlock hheld hdebt).blocked⟩
    refine hfree.goto_awake ?_ rfl fun c v _ howes => absurd howes (hdebt c v)
    change (s.procs p).pc.inSleep = false
    rw [hpc]
    rfl
  | skip c k hpc =>
    have hout : (s.procs p).pc.inSleep = false := by rw [hpc]; rfl
    refine h.goto_awake hout rfl ?_
    intro c' v hv howes
    rw [hpc] at howes
    have hne : v ≠ p := by
      rintro rfl
      exact h.not_committed hout c' hv
    have hval : (v : Nat) ≠ p := fun heq => hne (Fin.ext heq)
    exact ⟨howes.1, by have := howes.2; omega⟩
  | visit c v k hpc hne hown =>
    have hwake := h.wakeOne (c := c) (v := v)
    refine hwake.1.goto_awake ?_ rfl ?_
    · rw [Sys.wakeOne_pc, hpc]
      rfl
    · intro c' q hq howes
      rw [Sys.wakeOne_pc, hpc] at howes
      rcases howes with ⟨rfl, hle⟩
      have hqv : q ≠ v := by
        rintro rfl
        exact hwake.2.2 hown hq
      have hval : (q : Nat) ≠ v := fun heq => hqv (Fin.ext heq)
      exact ⟨rfl, by omega⟩
  | woken c j k hpc hj =>
    refine h.goto_awake (by rw [hpc]; rfl) (by cases k <;> rfl) ?_
    intro c' v _ howes
    rw [hpc] at howes
    have hle := howes.2
    have hlt := v.isLt
    omega
  | sleepEnter c e hpc =>
    refine h.goto_awake (by rw [hpc]; rfl) rfl ?_
    intro c' v _ howes
    rw [hpc] at howes
    cases howes
  | sleepUnlock c e hpc =>
    have hheld : s.lock = some p := hlock.lock_eq (by rw [hpc]; rfl)
    have hdebt : forall c (v : Fin nproc), ¬ (s.procs p).pc.Owes c v := by
      intro c v
      rw [hpc]
      exact id
    have hawake : (s.procs p).state ≠ .sleeping := by
      intro hstate
      have hdoze := h.asleep p hstate
      rw [hpc] at hdoze
      cases hdoze
    have hknows := hlock.knows p
    rw [hpc] at hknows
    have hfree := h.unlock hheld hdebt
    constructor
    · intro q hq
      rcases eq_or_ne q p with rfl | hne
      · exact absurd (by simpa [Sys.goto, Sys.unlock] using hq) hawake
      · rw [Sys.goto_ne _ _ hne] at hq ⊢
        exact h.asleep q hq
    · intro q d hd hq
      refine .inl ?_
      rcases eq_or_ne q p with rfl | hne
      · -- what the caller of `sleep` saw under the lock still holds
        rcases hq with ⟨e', hset⟩ | ⟨hstate, _⟩
        · rw [Sys.goto_pc_self] at hset
          cases hset
          exact hknows
        · exact absurd (by simpa [Sys.goto, Sys.unlock] using hstate) hawake
      · unfold Committed at hq
        rw [Sys.goto_ne _ _ hne] at hq
        exact hfree.blocked_of_free rfl hd hq
  | sleepSet c e hpc =>
    refine h.setProc (fun _ => rfl) ?_ ?_
    · rintro d (⟨e', hset⟩ | ⟨_, hchan⟩)
      · rw [Sys.setProc_self] at hset
        cases hset
      · rw [Sys.setProc_self] at hchan
        cases hchan
        exact .inl ⟨e, hpc⟩
    · intro d v _ howes
      rw [hpc] at howes
      cases howes
  | sleepSched c e hpc =>
    refine h.setProc (fun _ => rfl) ?_ ?_
    · rintro d (⟨e', hset⟩ | hsleep)
      · rw [Sys.setProc_self] at hset
        cases hset
      · rw [Sys.setProc_self] at hsleep
        exact .inr hsleep
    · intro d v _ howes
      rw [hpc] at howes
      cases howes
  | resume c e hpc =>
    refine h.setProc (fun hstate => by cases hstate) ?_ ?_
    · rintro d (⟨e', hset⟩ | ⟨hstate, _⟩)
      · rw [Sys.setProc_self] at hset
        cases hset
      · rw [Sys.setProc_self] at hstate
        cases hstate
    · intro d v _ howes
      rw [hpc] at howes
      cases howes

end

end SleepInv

theorem sleepInv_reachable {nproc : Nat} {s : Sys nproc} (watched : Chan -> Prop)
    {ok : Sys nproc -> Fin nproc × Action -> Prop} (h : (system nproc).ReachableVia ok s)
    (hok : forall s l, ok s l -> watched .nread -> Announced s l) : SleepInv watched s := by
  have hboth : LockInv s ∧ SleepInv watched s := by
    refine h.invariant (I := fun s => LockInv s ∧ SleepInv watched s) ?_ ?_
    · intro s hs
      exact ⟨LockInv.of_fresh hs, SleepInv.of_fresh hs⟩
    · rintro s l s' ⟨hlock, hsleep⟩ hl hstep
      have hmove := Sys.step_move hstep
      exact ⟨hlock.move hmove, hsleep.move hlock rfl (hok s l hl) hmove⟩
  exact hboth.2

/-!
## Sleepers

While `pi->lock` is free a sleeping writer has no room and the other end is open; a sleeping reader
has nothing to read, unless a writer was killed with bytes that it had not announced.
-/

theorem sleepers_blocked {nproc : Nat} {s : Sys nproc} (h : (system nproc).Reachable s)
    (hfree : s.lock = none) :
    forall p, (s.procs p).state = .sleeping ->
      ((system nproc).ReachableVia Announced s -> (s.procs p).chan = some .nread ->
        s.pipe.nread = s.pipe.nwrite ∧ s.pipe.writeopen = true) ∧
      ((s.procs p).chan = some .nwrite ->
        s.pipe.nwrite = (s.pipe.nread + PIPESIZE) % WORD ∧ s.pipe.readopen = true) := by
  intro p hstate
  constructor
  · intro hann hchan
    have hinv := sleepInv_reachable (· = .nread) hann fun _ _ hl _ => hl
    exact hinv.blocked_of_free hfree rfl (.inr ⟨hstate, hchan⟩)
  · intro hchan
    have hinv := sleepInv_reachable (· = .nwrite) h fun _ _ _ heq => by cases heq
    exact hinv.blocked_of_free hfree rfl (.inr ⟨hstate, hchan⟩)

def sleepingReader : List (Fin 2 × Action) :=
  [(0, .piperead 1), (0, .go .bad), (0, .go .bad), (0, .go .bad), (0, .go .bad), (0, .go .bad),
    (0, .go .bad)]

theorem sleepers_blocked_reader :
    exists s : Sys 2, (system 2).ReachableVia Announced s ∧ (s.procs 0).state = .sleeping ∧
      (s.procs 0).chan = some .nread ∧ s.pipe.nread = s.pipe.nwrite ∧
      s.pipe.writeopen = true := by
  have hcheck : (System.run (fun s l => Sys.step s l.1 l.2) Announced (Sys.booted 2)
      sleepingReader).any (fun s => decide (s.lock = none ∧ (s.procs 0).state = .sleeping ∧
        (s.procs 0).chan = some .nread)) = true := by
    decide +kernel
  have hinit : (system 2).ReachableVia Announced (Sys.booted 2) := .init (Sys.fresh_booted 2)
  obtain ⟨s, hreach, hcheck⟩ := hinit.run_any (fun _ _ _ h => h) hcheck
  rcases of_decide_eq_true hcheck with ⟨hfree, hstate, hchan⟩
  have hblocked := (sleepers_blocked (hreach.mono fun _ _ _ => trivial) hfree 0 hstate).1 hreach
    hchan
  exact ⟨s, hreach, hstate, hchan, hblocked⟩

/-!
## A killed writer

The writer stores a byte, is killed before its next iteration and returns -1
without a `wakeup(&pi->nread)`.
-/

def killedWriter : List (Fin 3 × Action) :=
  [(0, .piperead 1), (0, .go .bad), (0, .go .bad), (0, .go .bad), (0, .go .bad), (0, .go .bad),
    (0, .go .bad),
    (1, .pipewrite 2), (1, .go .bad), (1, .go (.ok 7)), (2, .kkill 1), (1, .go .bad),
    (1, .go .bad)]

theorem reader_sleeps_beside_data :
    exists s : Sys 3, (system 3).Reachable s ∧ s.lock = none ∧ (s.procs 0).state = .sleeping ∧
      (s.procs 0).chan = some .nread ∧ s.pipe.nread ≠ s.pipe.nwrite := by
  have hcheck : (System.run (fun s l => Sys.step s l.1 l.2) (fun _ _ => True) (Sys.booted 3)
      killedWriter).any (fun s => decide (s.lock = none ∧ (s.procs 0).state = .sleeping ∧
        (s.procs 0).chan = some .nread ∧ s.pipe.nread ≠ s.pipe.nwrite)) = true := by
    decide +kernel
  have hinit : (system 3).Reachable (Sys.booted 3) := .init (Sys.fresh_booted 3)
  obtain ⟨s, hreach, hcheck⟩ := hinit.run_any (fun _ _ _ h => h) hcheck
  exact ⟨s, hreach, of_decide_eq_true hcheck⟩

end Pipes
end Xv6
