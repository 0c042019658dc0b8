import Xv6.Pipes.Machine

/-!
# A pipe is a first-in first-out channel

The buffer of a pipe is followed by the bytes stored and the bytes taken so far.
Every stored byte is labelled with its call of `pipewrite` and its index there,
which gives the order within a call.
-/

namespace Xv6
namespace Pipes

open Lib

theorem pipesize_lt_word : PIPESIZE < WORD := by
  decide

theorem pipesize_dvd_word : PIPESIZE ∣ WORD := by
  decide

/-!
## Calls of `pipewrite`

The call a process is in and the number of bytes it has stored, at every program
point.
-/

def Writer.progress (w : Writer) : Nat × Nat :=
  (w.call, w.i)

def Entry.progress : Entry -> Option (Nat × Nat)
  | .write w => some w.progress
  | _ => none

def Body.progress : Body -> Option (Nat × Nat)
  | .writeLoop w => some w.progress
  | _ => none

def After.progress : After -> Option (Nat × Nat)
  | .body b => b.progress
  | .sleep _ e => e.progress

def Pc.progress : Pc -> Option (Nat × Nat)
  | .idle => none
  | .lock e => e.progress
  | .body b => b.progress
  | .wake _ _ k => k.progress
  | .sleepEnter _ e => e.progress
  | .sleepUnlock _ e => e.progress
  | .sleepSet _ e => e.progress
  | .sleepSched _ e => e.progress
  | .asleep _ e => e.progress

theorem Entry.progress_body (e : Entry) : e.body.progress = e.progress := by
  cases e <;> rfl

theorem After.progress_pc (k : After) : k.pc.progress = k.progress := by
  cases k <;> rfl

def indices (l : List Stored) (call : Nat) : List Nat :=
  (l.filter fun e => e.call = call).map Stored.index

theorem indices_append (l : List Stored) (e : Stored) (call : Nat) :
    indices (l ++ [e]) call =
      if e.call = call then indices l call ++ [e.index] else indices l call := by
  unfold indices
  rw [List.filter_append, List.map_append]
  split
  · next h => simp [h]
  · next h => simp [h]

/-!
## Effects of one iteration
-/

theorem work_cases {pi : Pipe} {killed : Bool} {c : Copy} {b : Body} {r : Pipe × Pc × Event}
    (h : work pi killed c b = some r) :
    (r.2.2 = .none ∧ r.1.toCircular = pi.toCircular ∧
      (r.2.1.progress = b.progress ∨ r.2.1.progress = none)) ∨
    (exists w ch, b = .writeLoop w ∧ ¬ pi.Full ∧ r.1 = pi.store ch ∧
      r.2.1.progress = some (w.call, w.i + 1) ∧
      r.2.2 = .stored { call := w.call, index := w.i, byte := ch }) ∨
    (¬ pi.Empty ∧ r.1 = pi.take ∧ r.2.2 = .taken pi.head ∧ r.2.1.progress = none) := by
  cases b with
  | writeLoop w =>
    simp only [work, Option.some.injEq] at h
    subst h
    unfold pipewriteIter
    split
    · split
      · exact .inl ⟨rfl, rfl, .inr rfl⟩
      · split
        · exact .inl ⟨rfl, rfl, .inl rfl⟩
        · next hfull =>
            cases c with
            | bad => exact .inl ⟨rfl, rfl, .inr rfl⟩
            | ok ch => exact .inr (.inl ⟨w, ch, rfl, hfull, rfl, rfl, rfl⟩)
    · exact .inl ⟨rfl, rfl, .inr rfl⟩
  | readLoop n =>
    simp only [work, Option.some.injEq] at h
    subst h
    unfold pipereadWait
    split
    · split
      · exact .inl ⟨rfl, rfl, .inr rfl⟩
      · exact .inl ⟨rfl, rfl, .inr rfl⟩
    · exact .inl ⟨rfl, rfl, .inr rfl⟩
  | readFor n i =>
    simp only [work, Option.some.injEq] at h
    subst h
    unfold pipereadIter
    split
    · split
      · exact .inl ⟨rfl, rfl, .inr rfl⟩
      · next hempty =>
          cases c with
          | bad => exact .inr (.inr ⟨hempty, rfl, rfl, rfl⟩)
          | ok ch => exact .inr (.inr ⟨hempty, rfl, rfl, rfl⟩)
    · exact .inl ⟨rfl, rfl, .inr rfl⟩
  | close writable =>
    simp only [work, Option.some.injEq] at h
    subst h
    cases writable <;> exact .inl ⟨rfl, rfl, .inr rfl⟩
  | closed => cases h
  | ret r => cases h
  | readRet n r good => cases h

/-!
## The invariant

`calls` is the number of the next call.  A call in progress has stored the bytes
below its loop variable, and no other process is in the same call.
-/

structure FifoInv {nproc : Nat} (s : Sys nproc) : Prop where
  tracks : s.pipe.toCircular.Tracks PIPESIZE WORD s.taken (s.stored.map Stored.byte)
  current : forall p call i, (s.procs p).pc.progress = some (call, i) ->
    call < s.calls ∧ indices s.stored call = List.range i
  distinct : forall p q call i j, (s.procs p).pc.progress = some (call, i) ->
    (s.procs q).pc.progress = some (call, j) -> p = q
  ordered : forall call, exists k, indices s.stored call = List.range k
  unused : forall call, s.calls <= call -> indices s.stored call = []

namespace FifoInv

variable {nproc : Nat} {s s' : Sys nproc} {p : Fin nproc}

theorem of_fresh (h : s.Fresh) : FifoInv s where
  tracks := by
    rw [h.stored, h.taken]
    exact Circular.tracks_nil h.nread h.nwrite
  current := by
    intro p call i hp
    rw [h.pc p] at hp
    cases hp
  distinct := by
    intro p q call i j hp
    rw [h.pc p] at hp
    cases hp
  ordered := by
    intro call
    exact ⟨0, by rw [h.stored]; rfl⟩
  unused := by
    intro call _
    rw [h.stored]
    rfl

theorem of_quiet (h : FifoInv s) (hpipe : s'.pipe.toCircular = s.pipe.toCircular)
    (htaken : s'.taken = s.taken) (hstored : s'.stored = s.stored) (hcalls : s'.calls = s.calls)
    (hpc : forall q, (s'.procs q).pc.progress = (s.procs q).pc.progress ∨
      (s'.procs q).pc.progress = none) : FifoInv s' := by
  have hback : forall q call i, (s'.procs q).pc.progress = some (call, i) ->
      (s.procs q).pc.progress = some (call, i) := by
    intro q call i hq
    rcases hpc q with heq | hnone
    · rw [← heq, hq]
    · rw [hnone] at hq
      cases hq
  constructor
  · rw [hpipe, htaken, hstored]
    exact h.tracks
  · intro q call i hq
    rw [hcalls, hstored]
    exact h.current q call i (hback q call i hq)
  · intro q q' call i j hq hq'
    exact h.distinct q q' call i j (hback _ _ _ hq) (hback _ _ _ hq')
  · rw [hstored]
    exact h.ordered
  · rw [hstored, hcalls]
    exact h.unused

theorem goto (h : FifoInv s) {pc : Pc}
    (hpc : pc.progress = (s.procs p).pc.progress ∨ pc.progress = none) :
    FifoInv (s.goto p pc) := by
  refine h.of_quiet rfl rfl rfl rfl ?_
  intro q
  rcases eq_or_ne q p with rfl | hne
  · rw [Sys.goto_pc_self]
    exact hpc
  · rw [Sys.goto_ne _ _ hne]
    exact .inl rfl

theorem write (h : FifoInv s) (n : Int) :
    FifoInv ({ s with calls := s.calls + 1 }.goto p
      (.lock (.write { call := s.calls, n := n, i := 0, pending := false }))) := by
  have hprogress : forall q call i, (({ s with calls := s.calls + 1 }.goto p
      (.lock (.write { call := s.calls, n := n, i := 0, pending := false }))).procs q).pc.progress =
        some (call, i) ->
      (q = p ∧ call = s.calls ∧ i = 0) ∨ (s.procs q).pc.progress = some (call, i) := by
    intro q call i hq
    rcases eq_or_ne q p with rfl | hne
    · rw [Sys.goto_pc_self] at hq
      cases hq
      exact .inl ⟨rfl, rfl, rfl⟩
    · rw [Sys.goto_ne _ _ hne] at hq
      exact .inr hq
  constructor
  · exact h.tracks
  · intro q call i hq
    rcases hprogress q call i hq with ⟨rfl, rfl, rfl⟩ | hold
    · exact ⟨Nat.lt_succ_self _, h.unused _ (Nat.le_refl _)⟩
    · have hcur := h.current q call i hold
      exact ⟨Nat.lt_succ_of_lt hcur.1, hcur.2⟩
  · intro q q' call i j hq hq'
    rcases hprogress q call i hq with ⟨rfl, rfl, rfl⟩ | hold
    · rcases hprogress q' _ j hq' with ⟨rfl, _, _⟩ | hold'
      · rfl
      · exact absurd (h.current q' _ j hold').1 (Nat.lt_irrefl _)
    · rcases hprogress q' call j hq' with ⟨rfl, rfl, _⟩ | hold'
      · exact absurd (h.current q _ i hold).1 (Nat.lt_irrefl _)
      · exact h.distinct q q' call i j hold hold'
  · exact h.ordered
  · intro call hcall
    exact h.unused call (Nat.le_of_succ_le hcall)

theorem stores (h : FifoInv s) {call i : Nat} {ch : UInt8} {pc : Pc}
    (hp : (s.procs p).pc.progress = some (call, i)) (hfull : ¬ s.pipe.Full)
    (hpc : pc.progress = some (call, i + 1)) :
    FifoInv (({ s with pipe := s.pipe.store ch }.goto p pc).record
      (.stored { call := call, index := i, byte := ch })) := by
  have hcur := h.current p call i hp
  have hsame : indices (s.stored ++ [{ call := call, index := i, byte := ch }]) call =
      List.range (i + 1) := by
    rw [indices_append, if_pos rfl, hcur.2, List.range_succ]
  have hother : forall d, d ≠ call ->
      indices (s.stored ++ [{ call := call, index := i, byte := ch }]) d = indices s.stored d := by
    intro d hd
    rw [indices_append, if_neg (Ne.symm hd)]
  have hprogress : forall q d j, ((({ s with pipe := s.pipe.store ch }.goto p pc).record
      (.stored { call := call, index := i, byte := ch })).procs q).pc.progress = some (d, j) ->
      (q = p ∧ d = call ∧ j = i + 1) ∨ (q ≠ p ∧ (s.procs q).pc.progress = some (d, j)) := by
    intro q d j hq
    rw [Sys.record_procs] at hq
    rcases eq_or_ne q p with rfl | hne
    · rw [Sys.goto_pc_self, hpc] at hq
      cases hq
      exact .inl ⟨rfl, rfl, rfl⟩
    · rw [Sys.goto_ne _ _ hne] at hq
      exact .inr ⟨hne, hq⟩
  constructor
  · change Circular.Tracks PIPESIZE WORD (s.pipe.toCircular.put PIPESIZE WORD ch) s.taken
      ((s.stored ++ [_]).map Stored.byte)
    rw [List.map_append]
    refine h.tracks.put pipesize_dvd_word ?_ ch
    intro hlen
    exact hfull ((h.tracks.full_iff pipesize_lt_word).2 hlen)
  · intro q d j hq
    rcases hprogress q d j hq with ⟨rfl, rfl, rfl⟩ | ⟨hne, hold⟩
    · exact ⟨hcur.1, hsame⟩
    · have hd : d ≠ call := by
        rintro rfl
        exact hne (h.distinct q p d j i hold hp)
      have hq' := h.current q d j hold
      exact ⟨hq'.1, (hother d hd).trans hq'.2⟩
  · intro q q' d j j' hq hq'
    rcases hprogress q d j hq with ⟨rfl, rfl, rfl⟩ | ⟨hne, hold⟩
    · rcases hprogress q' _ j' hq' with ⟨rfl, _, _⟩ | ⟨_, hold'⟩
      · rfl
      · exact (h.distinct q' q d j' i hold' hp).symm
    · rcases hprogress q' d j' hq' with ⟨rfl, rfl, _⟩ | ⟨_, hold'⟩
      · exact h.distinct q q' d j i hold hp
      · exact h.distinct q q' d j j' hold hold'
  · intro d
    rcases eq_or_ne d call with rfl | hd
    · exact ⟨i + 1, hsame⟩
    · rcases h.ordered d with ⟨k, hk⟩
      exact ⟨k, (hother d hd).trans hk⟩
  · intro d hd
    have hne : d ≠ call := by
      rintro rfl
      exact absurd hcur.1 (Nat.not_lt.mpr hd)
    exact (hother d hne).trans (h.unused d hd)

theorem takes (h : FifoInv s) {pc : Pc} (hempty : ¬ s.pipe.Empty) (hpc : pc.progress = none) :
    FifoInv (({ s with pipe := s.pipe.take }.goto p pc).record (.taken s.pipe.head)) := by
  have hquiet : FifoInv (s.goto p pc) := h.goto (.inr hpc)
  constructor
  · change Circular.Tracks PIPESIZE WORD (s.pipe.toCircular.advance WORD)
      (s.taken ++ [s.pipe.toCircular.front PIPESIZE]) (s.stored.map Stored.byte)
    refine h.tracks.advance pipesize_dvd_word ?_
    intro hlen
    exact hempty ((h.tracks.empty_iff pipesize_lt_word).2 hlen)
  · exact hquiet.current
  · exact hquiet.distinct
  · exact hquiet.ordered
  · exact hquiet.unused

theorem move (h : FifoInv s) (hmove : s.Move p s') : FifoInv s' := by
  have hkeep : forall (x : Proc), x.pc.progress = (s.procs p).pc.progress ->
      FifoInv (s.setProc p x) := by
    intro x hx
    refine h.of_quiet rfl rfl rfl rfl ?_
    intro q
    rcases eq_or_ne q p with rfl | hne
    · rw [Sys.setProc_self]
      exact .inl hx
    · rw [Sys.setProc_ne _ _ hne]
      exact .inl rfl
  cases hmove with
  | write n hpc => exact h.write n
  | read n hpc => exact h.goto (.inr rfl)
  | close writable hpc => exact h.goto (.inr rfl)
  | kill v hown =>
    refine h.of_quiet rfl rfl rfl rfl ?_
    intro q
    rw [Sys.killOne_pc]
    exact .inl rfl
  | nobody => exact h
  | acquire e hpc hfree =>
    have hgo : FifoInv (s.goto p (.body e.body)) := by
      refine h.goto (.inl ?_)
      rw [hpc]
      exact e.progress_body
    exact ⟨hgo.tracks, hgo.current, hgo.distinct, hgo.ordered, hgo.unused⟩
  | work c b r hpc hr =>
    rcases r with ⟨pi, pc, ev⟩
    rcases work_cases hr with ⟨hev, hpipe, hprog⟩ | ⟨w, ch, hb, hfull, hpi, hprog, hev⟩ |
      ⟨hempty, hpi, hev, hprog⟩
    · dsimp only at hev hpipe hprog
      subst hev
      have hgo : FifoInv (s.goto p pc) := by
        refine h.goto ?_
        rw [hpc]
        exact hprog
      exact hgo.of_quiet hpipe rfl rfl rfl fun _ => .inl rfl
    · dsimp only at hpi hprog hev
      subst hpi hev hb
      refine h.stores ?_ hfull hprog
      rw [hpc]
      rfl
    · dsimp only at hpi hprog hev
      subst hpi hev
      exact h.takes hempty hprog
  | release c b hpc hr =>
    have hgo : FifoInv (s.goto p .idle) := h.goto (.inr rfl)
    exact hgo.of_quiet rfl rfl rfl rfl fun _ => .inl rfl
  | skip c k hpc => exact h.goto (.inl (by rw [hpc]; rfl))
  | visit c v k hpc hne hown =>
    have hwake : FifoInv (s.wakeOne c v) := by
      refine h.of_quiet ?_ ?_ ?_ ?_ ?_
      · rw [Sys.wakeOne_pipe]
      · unfold Sys.wakeOne
        split <;> rfl
      · unfold Sys.wakeOne
        split <;> rfl
      · unfold Sys.wakeOne
        split <;> rfl
      · intro q
        rw [Sys.wakeOne_pc]
        exact .inl rfl
    refine hwake.goto (.inl ?_)
    rw [Sys.wakeOne_pc, hpc]
    rfl
  | woken c j k hpc hj => exact h.goto (.inl (by rw [hpc, k.progress_pc]; rfl))
  | sleepEnter c e hpc => exact h.goto (.inl (by rw [hpc]; rfl))
  | sleepUnlock c e hpc =>
    have hgo : FifoInv (s.goto p (.sleepSet c e)) := h.goto (.inl (by rw [hpc]; rfl))
    exact hgo.of_quiet rfl rfl rfl rfl fun _ => .inl rfl
  | sleepSet c e hpc => exact hkeep _ (by rw [hpc]; rfl)
  | sleepSched c e hpc => exact h.goto (.inl (by rw [hpc]; rfl))
  | resume c e hpc => exact hkeep _ (by rw [hpc]; rfl)

end FifoInv

theorem fifoInv_reachable {nproc : Nat} {s : Sys nproc} (h : (system nproc).Reachable s) :
    FifoInv s :=
  h.invariant (fun _ => FifoInv.of_fresh) fun _ _ _ hinv _ hstep => hinv.move (Sys.step_move hstep)

/-!
## The channel

The counters differ by at most `PIPESIZE`, nothing is lost, duplicated or
reordered, and the bytes of one call are stored in the order of its loop.  A
`piperead` of a positive number of bytes whose copies all succeed returns 0 only
at the end of the stream.
-/

theorem pipe_fifo {nproc : Nat} {s : Sys nproc} (h : (system nproc).Reachable s) :
    s.pipe.toCircular.count WORD <= PIPESIZE ∧
    s.taken ++ s.pipe.toCircular.contents PIPESIZE WORD = s.stored.map Stored.byte ∧
    (forall call, exists k, indices s.stored call = List.range k) ∧
    forall p n, 0 < n -> (s.procs p).pc = .body (.readRet n 0 true) ->
      s.pipe.Empty ∧ s.pipe.writeopen = false := by
  have hinv := fifoInv_reachable h
  refine ⟨hinv.tracks.count_le pipesize_lt_word, ?_, hinv.ordered, ?_⟩
  · exact hinv.tracks.history pipesize_dvd_word pipesize_lt_word
  · intro p n hn hpc
    have hknows := (lockInv_reachable h).knows p
    rw [hpc] at hknows
    exact hknows hn rfl rfl

def relay : List (Fin 2 × Action) :=
  [(0, .pipewrite 3), (0, .go .bad), (0, .go (.ok 7)), (0, .go (.ok 8)), (0, .go (.ok 9))] ++
    List.replicate 5 (0, .go .bad) ++ [(1, .piperead 2)] ++ List.replicate 9 (1, .go (.ok 0))

theorem pipe_fifo_relay :
    exists s : Sys 2, (system 2).Reachable s ∧ s.lock = none ∧ s.taken = [7, 8] ∧
      s.stored.map Stored.byte = [7, 8, 9] ∧
      s.pipe.toCircular.count WORD <= PIPESIZE ∧
      s.taken ++ s.pipe.toCircular.contents PIPESIZE WORD = s.stored.map Stored.byte ∧
      forall call, exists k, indices s.stored call = List.range k := by
  have hcheck : (System.run (fun s l => Sys.step s l.1 l.2) (fun _ _ => True) (Sys.booted 2)
      relay).any (fun s => decide (s.lock = none ∧ s.taken = [7, 8] ∧
        s.stored.map Stored.byte = [7, 8, 9])) = true := by
    decide +kernel
  have hinit : (system 2).Reachable (Sys.booted 2) := .init (Sys.fresh_booted 2)
  obtain ⟨s, hreach, hcheck⟩ := hinit.run_any (fun _ _ _ h => h) hcheck
  rcases of_decide_eq_true hcheck with ⟨hfree, htaken, hstored⟩
  rcases pipe_fifo hreach with ⟨hcount, hfifo, hordered, _⟩
  exact ⟨s, hreach, hfree, htaken, hstored, hcount, hfifo, hordered⟩

end Pipes
end Xv6
