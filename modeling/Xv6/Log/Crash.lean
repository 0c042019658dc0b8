import Xv6.Log.Users

/-!
# Crash atomicity of the redo log

The invariant has two halves.  On disk, installing the log always yields the
durable contents, whatever was interrupted.  In memory, every reader sees the
durable contents with the pending writes applied.
-/

namespace Xv6
namespace Log

open Lib Function
open Bio

instance (start : Nat) : DecidablePred (fun n => n ∈ homes start) :=
  fun n => inferInstanceAs (Decidable ((n < start ∨ start + LOGBLOCKS < n) ∧ n < 2 ^ 32))

variable {k n start : Nat} {s s' : Sys} {d0 : Nat -> Block} {m : Mem} {rest : List Micro}
variable {c : Bcache} {op : OpState} {recovering : Bool} {u : User} {v : Block} {log : LogState}

def Sys.head (s : Sys) : List Nat :=
  readHeadBlock (s.disk s.op.log.start)

def Sys.pins (s : Sys) : List Nat :=
  match s.boot, s.prog with
  | .up, .install _ k :: _ => s.op.log.lh.drop k
  | .up, .clear :: _ => []
  | .up, _ => s.op.log.lh
  | _, _ => []

def Sys.view (d0 : Nat -> Block) (s : Sys) (n : Nat) : Block :=
  if s.boot = .up ∧ n ∈ homes s.op.log.start then
    Store.writeAll (s.durable d0) s.pending n
  else
    s.disk n

def bootOf (recovering : Bool) : Boot :=
  if recovering then .recovering else .up

/-!
## Where a commit or a recovery stands
-/

inductive Stage (d0 : Nat -> Block) (s : Sys) : Prop where
  | running :
      s.boot = .up -> s.prog = [] -> s.head = [] ->
      (forall n v, (n, v) ∈ s.pending -> n ∈ s.op.log.lh) ->
      Stage d0 s
  | logging (k : Nat) :
      s.boot = .up -> s.op.log.committing = true -> k <= s.op.log.lh.length ->
      s.op.log.lh ≠ [] ->
      s.prog = (List.range' k (s.op.log.lh.length - k)).map Micro.writeLog ++
        .writeHead :: installProg false s.op.log.lh.length ->
      s.head = [] ->
      (forall n v, (n, v) ∈ s.pending -> n ∈ s.op.log.lh) ->
      (forall j (hj : j < s.op.log.lh.length), j < k ->
        s.disk (s.op.log.start + j + 1) = s.view d0 s.op.log.lh[j]) ->
      Stage d0 s
  | installing (recovering : Bool) (k : Nat) :
      s.boot = bootOf recovering -> s.op.log.committing = !recovering ->
      k <= s.op.log.lh.length ->
      s.prog = (List.range' k (s.op.log.lh.length - k)).map (Micro.install recovering) ++
        [.clear, .writeHead] ->
      s.head = s.op.log.lh ->
      s.pending = [] ->
      RedoLog.Installed (device s.op.log.start s.disk) (s.durable d0) k ->
      Stage d0 s
  | clearing (recovering : Bool) :
      s.boot = bootOf recovering -> s.op.log.committing = !recovering ->
      s.prog = [.writeHead] -> s.op.log.lh = [] ->
      s.pending = [] ->
      (forall n, n ∈ homes s.op.log.start -> s.disk n = s.durable d0 n) ->
      Stage d0 s
  | start :
      s.boot = .start -> s.prog = [] -> s.op.log.committing = false ->
      s.op.log.lh = [] -> s.pending = [] ->
      Stage d0 s
  | recovered :
      s.boot = .recovering -> s.prog = [] -> s.op.log.committing = false ->
      s.op.log.lh = [] -> s.pending = [] -> s.head = [] ->
      Stage d0 s

structure CrashInv (start : Nat) (d0 : Nat -> Block) (s : Sys) : Prop where
  start_eq : s.op.log.start = start
  dev_eq : s.op.log.dev = ROOTDEV
  lh_le : s.op.log.lh.length <= LOGBLOCKS
  lh_home : forall n, n ∈ s.op.log.lh -> n ∈ homes start
  head_le : s.head.length <= LOGBLOCKS
  outstanding_eq : s.op.log.outstanding = s.op.ops.length
  quiet : s.op.log.committing = true -> s.op.ops = []
  users_key : forall u, u ∈ s.users ->
    u.buf < NBUF ∧ (s.cache.buf u.buf).key = blockKey u.blockno
  ok : Ok s.mem (s.users.map User.blockno) s.pins (s.view d0)
  recoverable : RedoLog.Recoverable (homes start) (device start s.disk) (s.durable d0)
  stage : Stage d0 s

theorem CrashInv.counted (h : CrashInv start d0 s) : Counted s.op :=
  ⟨h.outstanding_eq, h.quiet⟩

theorem cons_range {f : Nat -> Micro} {x u : Micro} {tail : List Micro} (hk : k <= n)
    (h : u :: rest = (List.range' k (n - k)).map f ++ x :: tail) :
    (k < n ∧ u = f k ∧
      rest = (List.range' (k + 1) (n - (k + 1))).map f ++ x :: tail) ∨
    (k = n ∧ u = x ∧ rest = tail) := by
  rcases Nat.lt_or_eq_of_le hk with hlt | rfl
  · have hsub : n - k = (n - (k + 1)) + 1 := by omega
    rw [hsub, List.range'_succ] at h
    cases h
    exact Or.inl ⟨hlt, rfl, rfl⟩
  · rw [Nat.sub_self] at h
    cases h
    exact Or.inr ⟨rfl, rfl, rfl⟩

/-!
## Boot
-/

theorem ok_binit (disk : Nat -> Block) :
    Ok { disk := disk, cache := binit } [] [] disk := by
  constructor
  · exact inv_binit
  · intro i _ hlock
    exact absurd rfl hlock
  · intro i n _ _ hvalid
    cases hvalid
  · intro n _
    rfl
  · intro n hn
    cases hn

theorem crashInv_reboot (hstart : s.op.log.start = start) (hdev : s.op.log.dev = ROOTDEV)
    (hhead : s.head.length <= LOGBLOCKS)
    (hrec : RedoLog.Recoverable (homes start) (device start s.disk) (s.durable d0)) :
    CrashInv start d0 s.reboot := by
  constructor
  · exact hstart
  · exact hdev
  · exact Nat.zero_le _
  · intro n hn
    cases hn
  · exact hhead
  · rfl
  · intro _
    rfl
  · intro u hu
    cases hu
  · exact ok_binit s.disk
  · exact hrec
  · exact Stage.start rfl rfl rfl rfl rfl

theorem crashInv_init (hempty : readHeadBlock (d0 start) = []) :
    CrashInv start d0 (Sys.init start d0) := by
  apply crashInv_reboot (s := Sys.init start d0) rfl rfl
  · simp [Sys.head, Sys.init, OpState.boot, hempty]
  · apply RedoLog.recoverable_of_head_nil hempty
    intro n _
    rfl

/-!
## Steps that only use the cache

They leave the log, the disk and the stage alone.
-/

theorem crashInv_cache (h : CrashInv start d0 s) (users : List User)
    (hkeys : forall u, u ∈ users -> u.buf < NBUF ∧ (c.buf u.buf).key = blockKey u.blockno)
    (hok : Ok { disk := s.disk, cache := c } (users.map User.blockno) s.pins (s.view d0)) :
    CrashInv start d0 { s with cache := c, users := users } :=
  { h with
    users_key := hkeys
    ok := hok
    stage := by
      cases h.stage with
      | running h1 h2 h3 h4 => exact Stage.running h1 h2 h3 h4
      | logging k h1 h2 h3 h4 h5 h6 h7 h8 => exact Stage.logging k h1 h2 h3 h4 h5 h6 h7 h8
      | installing b k h1 h2 h3 h4 h5 h6 h7 => exact Stage.installing b k h1 h2 h3 h4 h5 h6 h7
      | clearing b h1 h2 h3 h4 h5 h6 => exact Stage.clearing b h1 h2 h3 h4 h5 h6
      | start h1 h2 h3 h4 h5 => exact Stage.start h1 h2 h3 h4 h5
      | recovered h1 h2 h3 h4 h5 h6 => exact Stage.recovered h1 h2 h3 h4 h5 h6 }

theorem CrashInv.served (h : CrashInv start d0 s) : Served s s.pins (s.view d0) :=
  { users_key := h.users_key, ok := h.ok }

theorem crashInv_bget (pid : Nat) {i : Nat}
    (h : CrashInv start d0 s) (hget : bget s.cache ROOTDEV n = .ok (c, i)) :
    CrashInv start d0
      { s with cache := c, users := { pid := pid, buf := i, blockno := n } :: s.users } := by
  have hserved := h.served.bget pid hget
  exact crashInv_cache h _ hserved.users_key hserved.ok

theorem crashInv_lock (h : CrashInv start d0 s) (hu : u ∈ s.users)
    (hacq : acquire s.cache u.pid u.buf = some c) :
    CrashInv start d0 { s with cache := fill c s.disk u.buf } := by
  have hserved := h.served.lock hu hacq
  exact crashInv_cache h s.users hserved.users_key hserved.ok

theorem crashInv_brelse (h : CrashInv start d0 s) (hu : u ∈ s.users)
    (hrel : brelse s.cache u.pid u.buf = .ok c) :
    CrashInv start d0 { s with cache := c, users := s.users.erase u } := by
  have hserved := h.served.brelse hu hrel
  exact crashInv_cache h _ hserved.users_key hserved.ok

/-!
## Steps of the operations
-/

theorem Stage.idle (h : Stage d0 s) (hboot : s.boot = .up)
    (hidle : s.op.log.committing = false ∨ s.prog = []) :
    s.prog = [] ∧ s.head = [] ∧ (forall n v, (n, v) ∈ s.pending -> n ∈ s.op.log.lh) := by
  cases h with
  | running _ h2 h3 h4 =>
    exact ⟨h2, h3, h4⟩
  | logging k _ h2 _ _ h5 =>
    rcases hidle with hc | hp
    · rw [hc] at h2
      cases h2
    · rw [hp] at h5
      simp at h5
  | installing b k h1 h2 _ h4 =>
    rcases hidle with hc | hp
    · cases b with
      | false =>
        rw [hc] at h2
        cases h2
      | true =>
        rw [hboot] at h1
        cases h1
    · rw [hp] at h4
      simp at h4
  | clearing b h1 h2 h3 =>
    rcases hidle with hc | hp
    · cases b with
      | false =>
        rw [hc] at h2
        cases h2
      | true =>
        rw [hboot] at h1
        cases h1
    · rw [hp] at h3
      cases h3
  | start h1 | recovered h1 =>
    rw [hboot] at h1
    cases h1

theorem committing_stage (h : CrashInv start d0 s) (hboot : s.boot = .up)
    (hcommit : s.op.log.committing = false) :
    s.prog = [] ∧ s.head = [] ∧ (forall n v, (n, v) ∈ s.pending -> n ∈ s.op.log.lh) :=
  h.stage.idle hboot (.inl hcommit)

theorem pins_of_prog_nil (hboot : s.boot = .up) (hprog : s.prog = []) :
    s.pins = s.op.log.lh := by
  unfold Sys.pins
  rw [hboot, hprog]

theorem pins_of_cons {u : Micro} (hboot : s.boot = .up) (hprog : s.prog = u :: rest)
    (hu : (exists k, u = .writeLog k) ∨ u = .writeHead) : s.pins = s.op.log.lh := by
  unfold Sys.pins
  rw [hboot, hprog]
  rcases hu with ⟨k, rfl⟩ | rfl
  · rfl
  · rfl

theorem crashInv_beginOp {pid : Nat} (h : CrashInv start d0 s) (hboot : s.boot = .up)
    (hstep : OpStep s.op (.beginOp pid) op) :
    CrashInv start d0 { s with op := op } := by
  have hcounted := h.counted.step hstep
  cases hstep with
  | beginOp _ hbegin =>
    rcases beginOp_eq_some hbegin with ⟨hcommit, _, rfl⟩
    rcases committing_stage h hboot hcommit with ⟨hprog, hhead, hpend⟩
    have hok := h.ok
    rw [pins_of_prog_nil hboot hprog] at hok
    exact
      { h with
        outstanding_eq := hcounted.outstanding_eq
        quiet := hcounted.quiet
        ok := by
          rw [pins_of_prog_nil (by exact hboot) (by exact hprog)]
          exact hok
        stage := Stage.running hboot hprog hhead hpend }

theorem crashInv_endOp {pid : Nat} (h : CrashInv start d0 s) (hboot : s.boot = .up)
    (hstep : OpStep s.op (.endOp pid) op) :
    CrashInv start d0
      { s with
        op := op
        runner := pid
        prog := if op.log.committing then commitProg op.log.lh.length else s.prog } := by
  have hcounted := h.counted.step hstep
  cases hstep with
  | endOp hops hend =>
    rcases endOp_eq_ok hend with ⟨hcommit, rfl, _⟩
    rcases committing_stage h hboot hcommit with ⟨hprog, hhead, hpend⟩
    have hok := h.ok
    rw [pins_of_prog_nil hboot hprog] at hok
    by_cases hcommits : s.op.log.outstanding = 1 ∧ s.op.log.lh ≠ []
    · have hpos : 0 < s.op.log.lh.length := List.length_pos_of_ne_nil hcommits.right
      have hprog' : (if decide (s.op.log.outstanding = 1) = true then
          commitProg s.op.log.lh.length else s.prog) =
          (List.range s.op.log.lh.length).map Micro.writeLog ++
            .writeHead :: installProg false s.op.log.lh.length := by
        rw [if_pos (by simpa using hcommits.left), commitProg, if_pos hpos]
      have hfirst : exists k rest, (List.range s.op.log.lh.length).map Micro.writeLog ++
          .writeHead :: installProg false s.op.log.lh.length =
          Micro.writeLog k :: rest := by
        rcases Nat.exists_eq_succ_of_ne_zero (Nat.ne_of_gt hpos) with ⟨k, hk⟩
        rw [hk, List.range_succ_eq_map]
        exact ⟨0, _, rfl⟩
      refine
        { h with
          outstanding_eq := hcounted.outstanding_eq
          quiet := hcounted.quiet
          ok := ?_
          stage := ?_ }
      · rcases hfirst with ⟨k, rest, hrest⟩
        rw [pins_of_cons (by exact hboot) (hprog'.trans hrest) (.inl ⟨k, rfl⟩)]
        exact hok
      · refine Stage.logging 0 hboot ?_ (Nat.zero_le _) hcommits.right ?_ hhead hpend ?_
        · simpa using hcommits.left
        · simp only [hprog']
          rw [Nat.sub_zero, List.range_eq_range']
        · intro j hj hlt
          exact absurd hlt (Nat.not_lt_zero j)
    · have hprog' : (if decide (s.op.log.outstanding = 1) = true then
          commitProg s.op.log.lh.length else s.prog) = [] := by
        by_cases hone : s.op.log.outstanding = 1
        · have hnil : s.op.log.lh = [] := by
            by_contra hne
            exact hcommits ⟨hone, hne⟩
          simp [hone, hnil, commitProg]
        · simp [hone, hprog]
      exact
        { h with
          outstanding_eq := hcounted.outstanding_eq
          quiet := hcounted.quiet
          ok := by
            rw [pins_of_prog_nil (by exact hboot) (by exact hprog')]
            exact hok
          stage := Stage.running hboot hprog' hhead hpend }

theorem crashInv_endCommit (h : CrashInv start d0 s) (hboot : s.boot = .up) (hprog : s.prog = [])
    (hstep : OpStep s.op .endCommit op) :
    CrashInv start d0 { s with op := op } := by
  cases hstep with
  | endCommit hcommit hnil =>
    rcases h.stage.idle hboot (.inr hprog) with ⟨_, hhead, hpend⟩
    have hok := h.ok
    rw [pins_of_prog_nil hboot hprog] at hok
    exact
      { h with
        quiet := nofun
        ok := by
          rw [pins_of_prog_nil (by exact hboot) (by exact hprog)]
          exact hok
        stage := Stage.running hboot hprog hhead hpend }

/-!
## Logging a block

The buffer takes the new contents and the write joins the pending ones, so every
reader sees it at once; a block new to the log is pinned.
-/

theorem view_logWrite (hboot : s.boot = .up) (hboot' : s'.boot = .up)
    (hstart : s'.op.log.start = s.op.log.start) (hn : n ∈ homes s.op.log.start)
    (hdisk : s'.disk = s.disk) (hhist : s'.history = s.history)
    (hpend : s'.pending = s.pending ++ [(n, v)]) :
    s'.view d0 = update (s.view d0) n v := by
  funext k
  unfold Sys.view
  rw [hstart, hboot, hboot', hdisk, hpend, Store.writeAll_concat]
  unfold Sys.durable
  rw [hhist]
  by_cases hk : k = n
  · subst hk
    rw [if_pos ⟨rfl, hn⟩, update_self, update_self]
  · rw [update_of_ne hk, update_of_ne hk]

theorem crashInv_logWrite {fresh : Bool}
    (h : CrashInv start d0 s) (hboot : s.boot = .up) (hu : u ∈ s.users)
    (hlock : (s.cache.buf u.buf).lock = some u.pid) (hhome : u.blockno ∈ homes s.op.log.start)
    (hlog : Log.logWrite s.op.log u.blockno = .ok (log, fresh))
    (hstep : OpStep s.op (.logWrite u.pid u.blockno) op) :
    CrashInv start d0
      { s with
        op := op
        cache := if fresh then bpin (setData s.mem u.buf v).cache u.buf
          else (setData s.mem u.buf v).cache
        pending := s.pending ++ [(u.blockno, v)] } := by
  rcases u with ⟨pid, i, n⟩
  have hcounted := h.counted.step hstep
  have hcommit := h.counted.not_committing hstep
  cases hstep with
  | logWrite hops hlog' =>
    rw [hlog] at hlog'
    cases hlog'
    rcases committing_stage h hboot hcommit with ⟨hprog, hhead, hpend⟩
    have hserved := h.served
    rw [pins_of_prog_nil hboot hprog] at hserved
    rcases logWrite_fields hlog with ⟨hst, hdv, _, _, hle, hmem⟩
    refine ⟨hst.trans h.start_eq, hdv.trans h.dev_eq, hle, ?_, ?_, hcounted.outstanding_eq,
      hcounted.quiet, ?_, ?_, h.recoverable, ?_⟩
    · intro k hk
      rcases (hmem k).mp hk with hk | rfl
      · exact h.lh_home k hk
      · exact h.start_eq ▸ hhome
    · change (readHeadBlock (s.disk log.start)).length <= LOGBLOCKS
      rw [hst]
      exact h.head_le
    · exact (hserved.logWrite hu hlock hlog _ (s.pending ++ [(n, v)])).users_key
    · rw [pins_of_prog_nil (by exact hboot) (by exact hprog),
        view_logWrite hboot (by exact hboot) (by exact hst) hhome (by rfl) (by rfl) (by rfl)]
      exact (hserved.logWrite hu hlock hlog _ (s.pending ++ [(n, v)])).ok
    · refine Stage.running hboot hprog ?_ ?_
      · change readHeadBlock (s.disk log.start) = []
        rw [hst]
        exact hhead
      · intro k w hk
        rcases List.mem_append.mp hk with hk | hk
        · exact (hmem k).mpr (Or.inl (hpend k w hk))
        · cases List.mem_singleton.mp hk
          exact (hmem n).mpr (Or.inr rfl)

/-!
## Steps of a commit and of a recovery
-/

theorem view_of_not_home (hn : n ∉ homes s.op.log.start) : s.view d0 n = s.disk n := by
  unfold Sys.view
  rw [if_neg (fun hup => hn hup.right)]

theorem view_of_home (hboot : s.boot = .up) (hn : n ∈ homes s.op.log.start) :
    s.view d0 n = Store.writeAll (s.durable d0) s.pending n := by
  unfold Sys.view
  rw [if_pos ⟨hboot, hn⟩]

theorem view_of_not_up (hboot : s.boot ≠ .up) :
    s.view d0 = s.disk := by
  funext n
  unfold Sys.view
  rw [if_neg (fun hup => hboot hup.left)]

theorem slot_not_home {i : Nat} (hi : i < LOGBLOCKS) : start + i + 1 ∉ homes start :=
  fun hn => homes_ne_slot hn hi rfl

theorem start_not_home (start : Nat) : start ∉ homes start :=
  fun hn => homes_ne_start hn rfl

theorem view_update_log (hboot : s'.boot = s.boot) (hstart : s'.op.log.start = s.op.log.start)
    (hn : n ∉ homes s.op.log.start) (hdisk : s'.disk = update s.disk n v)
    (hwrites : Store.writeAll (s'.durable d0) s'.pending =
      Store.writeAll (s.durable d0) s.pending) :
    s'.view d0 = update (s.view d0) n v := by
  funext k
  by_cases hk : k = n
  · subst hk
    rw [view_of_not_home (by rw [hstart]; exact hn), hdisk, update_self,
      update_self]
  · rw [update_of_ne hk]
    unfold Sys.view
    rw [hboot, hstart, hwrites, hdisk, update_of_ne hk]

theorem getD_mem {lh : List Nat} (hk : k < lh.length) :
    lh.getD k 0 = lh[k] ∧ lh.getD k 0 ∈ lh := by
  have heq : lh.getD k 0 = lh[k] := by
    rw [List.getD_eq_getElem?_getD, List.getElem?_eq_getElem hk, Option.getD_some]
  exact ⟨heq, heq ▸ List.getElem_mem hk⟩

theorem map_range'_cons (f : Nat -> Micro) (hk : k < n) :
    (List.range' k (n - k)).map f = f k :: (List.range' (k + 1) (n - (k + 1))).map f := by
  have hsub : n - k = (n - (k + 1)) + 1 := by omega
  rw [hsub, List.range'_succ, List.map_cons]

theorem durable_micro {u : Micro} (hpoint : ¬ CommitPoint s.op.log u) :
    (s.micro u rest log m).durable d0 = s.durable d0 := by
  simp only [Sys.durable, Sys.micro, if_neg hpoint]

theorem pending_micro {u : Micro} (hpoint : ¬ CommitPoint s.op.log u) :
    (s.micro u rest log m).pending = s.pending := by
  simp only [Sys.micro, if_neg hpoint]

theorem crashInv_micro {u : Micro} {lh : List Nat} (h : CrashInv start d0 s)
    (hle : lh.length <= LOGBLOCKS) (hhome : forall n, n ∈ lh -> n ∈ homes start)
    (hhead : (readHeadBlock (m.disk s.op.log.start)).length <= LOGBLOCKS)
    (hkeys : KeepsKeys s.mem m (s.users.map User.blockno)) (hok : Ok m (s.users.map User.blockno)
      (s.micro u rest { s.op.log with lh := lh } m).pins
      ((s.micro u rest { s.op.log with lh := lh } m).view d0))
    (hrec : RedoLog.Recoverable (homes start) (device start m.disk)
      ((s.micro u rest { s.op.log with lh := lh } m).durable d0))
    (hstage : Stage d0 (s.micro u rest { s.op.log with lh := lh } m)) :
    CrashInv start d0 (s.micro u rest { s.op.log with lh := lh } m) :=
  { h with
    lh_le := hle
    lh_home := hhome
    head_le := hhead
    users_key := (h.served.keeps hkeys hok).users_key
    ok := hok
    recoverable := hrec
    stage := hstage }

theorem crashInv_writeLog (h : CrashInv start d0 s) (hboot : s.boot = .up)
    (hcommit : s.op.log.committing = true) (hk : k < s.op.log.lh.length)
    (hprog : s.prog = .writeLog k :: rest)
    (hrest : rest = (List.range' (k + 1) (s.op.log.lh.length - (k + 1))).map
      Micro.writeLog ++ .writeHead :: installProg false s.op.log.lh.length) (hhead : s.head = [])
    (hpend : forall n v, (n, v) ∈ s.pending -> n ∈ s.op.log.lh)
    (hdone : forall j (hj : j < s.op.log.lh.length), j < k ->
      s.disk (s.op.log.start + j + 1) = s.view d0 s.op.log.lh[j])
    (hbody : writeLogBody s.runner s.op.log s.mem k = .ok m) :
    CrashInv start d0 (s.micro (.writeLog k) rest s.op.log m) := by
  have hstart := h.start_eq
  subst hstart
  have hle := h.lh_le
  have hkl : k < LOGBLOCKS := by omega
  have hmem := getD_mem hk
  have hhome := h.lh_home _ hmem.right
  have hnot : s.op.log.start + k + 1 ∉ homes s.op.log.start := slot_not_home hkl
  rcases writeLogBody_ok h.ok h.dev_eq (homes_ne_slot hhome hkl) hbody with
    ⟨hok, hdisk, hkeys⟩
  change m.disk = update s.disk _ _ at hdisk
  have hpoint : ¬ CommitPoint s.op.log (.writeLog k) := fun hp => by cases hp.left
  have hview : (s.micro (.writeLog k) rest s.op.log m).view d0 =
      update (s.view d0) (s.op.log.start + k + 1)
        (s.view d0 (s.op.log.lh.getD k 0)) := by
    refine view_update_log (by rfl) (by rfl) hnot hdisk ?_
    rw [durable_micro hpoint, pending_micro hpoint]
  have hhead' : readHeadBlock (m.disk s.op.log.start) = [] := by
    rw [hdisk, update_of_ne (by omega)]
    exact hhead
  have hpins : (s.micro (.writeLog k) rest s.op.log m).pins = s.pins := by
    rw [pins_of_cons hboot hprog (.inl ⟨k, rfl⟩)]
    unfold Sys.pins
    simp only [Sys.micro, hboot, hrest]
    cases List.range' (k + 1) (s.op.log.lh.length - (k + 1)) <;> rfl
  refine crashInv_micro h hle h.lh_home ?_ hkeys ?_ ?_ ?_
  · rw [hhead']
    exact Nat.zero_le _
  · rw [hpins, hview]
    exact hok
  · apply RedoLog.recoverable_of_head_nil hhead'
    intro n hn
    change m.disk n = _
    rw [durable_micro hpoint, hdisk, update_of_ne (homes_ne_slot hn hkl)]
    exact h.recoverable.home_of_head_nil hhead n hn
  · refine Stage.logging (k + 1) hboot hcommit hk ?_ hrest hhead' ?_ ?_
    · exact List.ne_nil_of_mem hmem.right
    · rw [pending_micro hpoint]
      exact hpend
    · intro j hj hjk
      change j < s.op.log.lh.length at hj
      change m.disk (s.op.log.start + j + 1) =
        (s.micro (.writeLog k) rest s.op.log m).view d0 s.op.log.lh[j]
      have hjhome := h.lh_home _ (List.getElem_mem hj)
      rw [hview, hdisk, update_of_ne (homes_ne_slot hjhome hkl)]
      by_cases hjk' : j = k
      · subst hjk'
        rw [update_self, hmem.left]
      · rw [update_of_ne (by omega)]
        exact hdone j hj (by omega)

theorem crashInv_writeHead_commit (h : CrashInv start d0 s) (hboot : s.boot = .up)
    (hcommit : s.op.log.committing = true) (hne : s.op.log.lh ≠ [])
    (hprog : s.prog = .writeHead :: installProg false s.op.log.lh.length) (hhead : s.head = [])
    (hpend : forall n v, (n, v) ∈ s.pending -> n ∈ s.op.log.lh)
    (hdone : forall j (hj : j < s.op.log.lh.length),
      s.disk (s.op.log.start + j + 1) = s.view d0 s.op.log.lh[j])
    (hwrite : writeHead s.runner s.op.log s.mem = .ok m) :
    CrashInv start d0
      (s.micro .writeHead (installProg false s.op.log.lh.length) s.op.log m) := by
  have hstart := h.start_eq
  subst hstart
  have hle := h.lh_le
  rcases writeHead_ok h.ok h.dev_eq hwrite with ⟨hok, hdisk, hkeys⟩
  change m.disk = update s.disk _ _ at hdisk
  have hpoint : CommitPoint s.op.log .writeHead := ⟨rfl, hne⟩
  have hdur : (s.micro .writeHead (installProg false s.op.log.lh.length) s.op.log m).durable
      d0 = Store.writeAll (s.durable d0) s.pending := by
    simp only [Sys.durable, Sys.micro, if_pos hpoint, List.flatten_append,
      List.flatten_singleton, Store.writeAll_append]
  have hview : (s.micro .writeHead (installProg false s.op.log.lh.length) s.op.log m).view
      d0 = update (s.view d0) s.op.log.start
        (putHead (s.view d0 s.op.log.start) s.op.log.lh) := by
    refine view_update_log (by rfl) (by rfl) (start_not_home _) hdisk ?_
    rw [hdur]
    simp only [Sys.micro, if_pos hpoint, Store.writeAll_nil]
  have hhead' : readHeadBlock (m.disk s.op.log.start) = s.op.log.lh := by
    rw [hdisk, update_self]
    apply readHeadBlock_putHead
    · exact Nat.lt_of_le_of_lt hle (by decide)
    · intro n hn
      exact (h.lh_home n hn).right
  have hpins : (s.micro .writeHead (installProg false s.op.log.lh.length) s.op.log m).pins =
      s.pins := by
    rw [pins_of_cons hboot hprog (.inr rfl)]
    rcases List.exists_cons_of_ne_nil hne with ⟨a, l, hal⟩
    unfold Sys.pins
    simp only [Sys.micro, hboot, hal, installProg, List.length_cons,
      List.range_succ_eq_map, List.map_cons, List.cons_append, List.drop_zero]
  refine crashInv_micro h hle h.lh_home ?_ hkeys ?_ ?_ ?_
  · rw [hhead']
    exact hle
  · rw [hpins, hview]
    exact hok
  · rw [hdur]
    have hrec : RedoLog.Recoverable (homes s.op.log.start)
        { device s.op.log.start s.disk with head := s.op.log.lh }
        (Store.writeAll (s.durable d0) s.pending) := by
      apply h.recoverable.commit hhead h.lh_home
      · intro i hi
        rw [← view_of_home hboot (h.lh_home _ (List.getElem_mem hi))]
        exact hdone i hi
      · intro n _ hnot
        apply Store.writeAll_of_not_mem
        intro v hv
        exact hnot (hpend n v hv)
    apply hrec.congr hhead'
    · intro i _
      change m.disk (s.op.log.start + i + 1) = s.disk (s.op.log.start + i + 1)
      rw [hdisk, update_of_ne (by omega)]
    · intro n hn
      change m.disk n = s.disk n
      rw [hdisk, update_of_ne (homes_ne_start hn)]
  · refine Stage.installing false 0 hboot hcommit (Nat.zero_le _) ?_ hhead' ?_
      (RedoLog.installed_zero _ _)
    · simp only [Sys.micro]
      rw [installProg, List.range_eq_range', Nat.sub_zero]
    · simp only [Sys.micro, if_pos hpoint]

theorem pins_installing (hboot : s.boot = .up) (hk : k <= s.op.log.lh.length)
    (hprog : s.prog = (List.range' k (s.op.log.lh.length - k)).map (Micro.install false) ++
      [.clear, .writeHead]) :
    s.pins = s.op.log.lh.drop k := by
  unfold Sys.pins
  by_cases hlt : k < s.op.log.lh.length
  · rw [map_range'_cons _ hlt] at hprog
    rw [hboot, hprog]
    rfl
  · have heq : k = s.op.log.lh.length := by omega
    rw [heq, Nat.sub_self] at hprog
    rw [hboot, hprog, heq, List.drop_length]
    rfl

theorem pins_recovering (hboot : s.boot = .recovering) : s.pins = [] := by
  unfold Sys.pins
  rw [hboot]

theorem installBody_effect (h : CrashInv s.op.log.start d0 s)
    (hboot : s.boot = bootOf recovering) (hk : k < s.op.log.lh.length)
    (hprog : s.prog = .install recovering k :: rest)
    (hrest : rest = (List.range' (k + 1) (s.op.log.lh.length - (k + 1))).map
      (Micro.install recovering) ++ [.clear, .writeHead])
    (hhead : s.head = s.op.log.lh) (hpend : s.pending = [])
    (hbody : installBody s.runner recovering s.op.log s.mem k = .ok m) :
    m.disk = update s.disk s.op.log.lh[k] (s.disk (s.op.log.start + k + 1)) ∧
      Ok m (s.users.map User.blockno)
        (s.micro (.install recovering k) rest s.op.log m).pins
        ((s.micro (.install recovering k) rest s.op.log m).view d0) ∧
      KeepsKeys s.mem m (s.users.map User.blockno) := by
  have hle := h.lh_le
  have hmem := getD_mem hk
  have hhome := h.lh_home _ hmem.right
  have hkl : k < LOGBLOCKS := by omega
  have hne := homes_ne_slot hhome hkl
  have hpoint : ¬ CommitPoint s.op.log (.install recovering k) := fun hp => by cases hp.left
  have hslot : s.view d0 (s.op.log.start + k + 1) = s.disk (s.op.log.start + k + 1) :=
    view_of_not_home (slot_not_home hkl)
  cases recovering with
  | false =>
    have hpins : s.pins = s.op.log.lh.getD k 0 :: s.op.log.lh.drop (k + 1) := by
      rw [pins_installing hboot (Nat.le_of_lt hk)
        (by rw [map_range'_cons _ hk, hprog, hrest]; rfl), List.drop_eq_getElem_cons hk,
        hmem.left]
    have hsame : s.view d0 (s.op.log.lh.getD k 0) = s.disk (s.op.log.start + k + 1) := by
      rw [view_of_home hboot hhome, hpend, Store.writeAll_nil]
      have hk' : k < (device s.op.log.start s.disk).head.length := by
        change k < s.head.length
        rw [hhead]
        exact hk
      have hslotEq := h.recoverable.slot_eq k hk'
      have hget : (device s.op.log.start s.disk).head[k] = s.op.log.lh.getD k 0 := by
        rw [hmem.left]
        exact List.getElem_of_eq hhead hk'
      rw [hget] at hslotEq
      exact hslotEq.symm
    have hok := h.ok
    rw [hpins] at hok
    rcases installBody_commit_ok hok h.dev_eq hne (by rw [hslot, hsame]) hbody with
      ⟨hok', hdisk, hkeys⟩
    change m.disk = update s.disk _ _ at hdisk
    rw [hsame, hmem.left] at hdisk
    refine ⟨hdisk, ?_, hkeys⟩
    have hview : (s.micro (.install false k) rest s.op.log m).view d0 = s.view d0 := by
      funext n
      by_cases hn : n ∈ homes s.op.log.start
      · rw [view_of_home (by exact hboot) (by exact hn), view_of_home hboot hn]
        rw [durable_micro hpoint, pending_micro hpoint]
      · rw [view_of_not_home (by exact hn), view_of_not_home hn]
        change m.disk n = s.disk n
        rw [hdisk, update_of_ne]
        intro heq
        apply hn
        rw [heq, ← hmem.left]
        exact hhome
    rw [hview, pins_installing (s := s.micro (.install false k) rest s.op.log m) hboot hk
      (by exact hrest)]
    exact hok'
  | true =>
    have hup : s.boot ≠ .up := by
      rw [hboot]
      decide
    rcases installBody_recover_ok h.ok h.dev_eq hne hbody with ⟨hok', hdisk, hkeys⟩
    change m.disk = update s.disk _ _ at hdisk
    rw [hslot, hmem.left] at hdisk
    refine ⟨hdisk, ?_, hkeys⟩
    rw [hslot, view_of_not_up hup, hmem.left, ← hdisk, pins_recovering hboot] at hok'
    rw [pins_recovering (by exact hboot), view_of_not_up (by exact hup)]
    exact hok'

section

variable (h : CrashInv start d0 s)
include h

section

variable (hboot : s.boot = bootOf recovering) (hcommit : s.op.log.committing = !recovering)
include hboot hcommit

theorem crashInv_install (hk : k < s.op.log.lh.length)
    (hprog : s.prog = .install recovering k :: rest)
    (hrest : rest = (List.range' (k + 1) (s.op.log.lh.length - (k + 1))).map
      (Micro.install recovering) ++ [.clear, .writeHead])
    (hhead : s.head = s.op.log.lh) (hpend : s.pending = [])
    (hdone : RedoLog.Installed (device s.op.log.start s.disk) (s.durable d0) k)
    (hbody : installBody s.runner recovering s.op.log s.mem k = .ok m) :
    CrashInv start d0 (s.micro (.install recovering k) rest s.op.log m) := by
  have hstart := h.start_eq
  subst hstart
  have hle := h.lh_le
  have hhome := h.lh_home _ (List.getElem_mem hk)
  have hpoint : ¬ CommitPoint s.op.log (.install recovering k) := fun hp => by cases hp.left
  rcases installBody_effect h hboot hk hprog hrest hhead hpend hbody with
    ⟨hdisk, hok, hkeys⟩
  have hhead' : readHeadBlock (m.disk s.op.log.start) = s.op.log.lh := by
    rw [hdisk, update_of_ne (homes_ne_start hhome).symm]
    exact hhead
  have hk' : k < (device s.op.log.start s.disk).head.length := by
    change k < s.head.length
    rw [hhead]
    exact hk
  have hget : (device s.op.log.start s.disk).head[k] = s.op.log.lh[k] :=
    List.getElem_of_eq hhead hk'
  have hhomeEq : m.disk = update (device s.op.log.start s.disk).home
      (device s.op.log.start s.disk).head[k] ((device s.op.log.start s.disk).slot k) := by
    rw [hdisk, hget]
    rfl
  refine crashInv_micro h hle h.lh_home ?_ hkeys hok ?_ ?_
  · rw [hhead']
    exact hle
  · rw [durable_micro hpoint]
    apply (h.recoverable.install hk').congr
    · exact hhead'.trans hhead.symm
    · intro i hi
      have hil : i < LOGBLOCKS := Nat.lt_of_lt_of_le hi h.head_le
      change m.disk (s.op.log.start + i + 1) = s.disk (s.op.log.start + i + 1)
      rw [hdisk, update_of_ne (homes_ne_slot hhome hil).symm]
    · intro n _
      exact congrFun hhomeEq n
  · refine Stage.installing recovering (k + 1) hboot hcommit hk hrest hhead' ?_ ?_
    · rw [pending_micro hpoint]
      exact hpend
    · rw [durable_micro hpoint]
      intro a ha
      have hsucc := RedoLog.Installed.succ h.recoverable hdone hk' a
      rw [← hhomeEq] at hsucc
      apply hsucc
      have hheads : (device s.op.log.start s.disk).head =
          (device s.op.log.start m.disk).head := hhead.trans hhead'.symm
      simp only
      rw [hheads]
      exact ha

theorem crashInv_clear (hprog : s.prog = [.clear, .writeHead])
    (hhead : s.head = s.op.log.lh) (hpend : s.pending = [])
    (hdone : RedoLog.Installed (device s.op.log.start s.disk) (s.durable d0)
      s.op.log.lh.length) :
    CrashInv start d0
      (s.micro .clear [.writeHead] { s.op.log with lh := [] } s.mem) := by
  have hstart := h.start_eq
  subst hstart
  have hpoint : ¬ CommitPoint s.op.log .clear := fun hp => by cases hp.left
  have hview : (s.micro .clear [.writeHead] { s.op.log with lh := [] } s.mem).view d0 =
      s.view d0 := by
    funext n
    unfold Sys.view
    rw [durable_micro hpoint, pending_micro hpoint]
    rfl
  have hpins : (s.micro .clear [.writeHead] { s.op.log with lh := [] } s.mem).pins =
      s.pins := by
    unfold Sys.pins
    rw [hprog]
    simp only [Sys.micro]
    cases s.boot <;> rfl
  have hhomes : forall n, n ∈ homes s.op.log.start -> s.disk n = s.durable d0 n := by
    intro n hn
    by_cases hmem : n ∈ s.op.log.lh
    · apply hdone n
      change n ∈ s.head.take _
      rw [hhead, List.take_length]
      exact hmem
    · apply h.recoverable.home_eq n hn
      change n ∉ s.head
      rw [hhead]
      exact hmem
  refine crashInv_micro h (Nat.zero_le _) (fun n hn => by cases hn) h.head_le
    (fun _ _ _ _ hkey => hkey) ?_ ?_ ?_
  · rw [hview, hpins]
    exact h.ok
  · rw [durable_micro hpoint]
    exact h.recoverable
  · refine Stage.clearing recovering hboot hcommit rfl rfl ?_ ?_
    · rw [pending_micro hpoint]
      exact hpend
    · rw [durable_micro hpoint]
      exact hhomes

theorem crashInv_writeHead_clear
    (hprog : s.prog = [.writeHead]) (hnil : s.op.log.lh = []) (hpend : s.pending = [])
    (hhomes : forall n, n ∈ homes s.op.log.start -> s.disk n = s.durable d0 n)
    (hwrite : writeHead s.runner s.op.log s.mem = .ok m) :
    CrashInv start d0 (s.micro .writeHead [] s.op.log m) := by
  have hstart := h.start_eq
  subst hstart
  rcases writeHead_ok h.ok h.dev_eq hwrite with ⟨hok, hdisk, hkeys⟩
  change m.disk = update s.disk _ _ at hdisk
  have hpoint : ¬ CommitPoint s.op.log .writeHead := fun hp => hp.right hnil
  have hview : (s.micro .writeHead [] s.op.log m).view d0 =
      update (s.view d0) s.op.log.start
        (putHead (s.view d0 s.op.log.start) s.op.log.lh) := by
    refine view_update_log (by rfl) (by rfl) (start_not_home _) hdisk ?_
    rw [durable_micro hpoint, pending_micro hpoint]
  have hpins : (s.micro .writeHead [] s.op.log m).pins = s.pins := by
    unfold Sys.pins
    rw [hprog]
    simp only [Sys.micro]
    cases s.boot <;> rfl
  have hhead' : readHeadBlock (m.disk s.op.log.start) = [] := by
    rw [hdisk, update_self, hnil]
    exact readHeadBlock_putHead _ (by decide) (fun n hn => by cases hn)
  refine crashInv_micro h h.lh_le h.lh_home ?_ hkeys ?_ ?_ ?_
  · rw [hhead']
    exact Nat.zero_le _
  · rw [hpins, hview]
    exact hok
  · apply RedoLog.recoverable_of_head_nil hhead'
    intro n hn
    change m.disk n = _
    rw [durable_micro hpoint, hdisk, update_of_ne (homes_ne_start hn)]
    exact hhomes n hn
  · have hpend' : (s.micro .writeHead [] s.op.log m).pending = [] :=
      (pending_micro hpoint).trans hpend
    cases recovering with
    | false =>
      refine Stage.running hboot rfl hhead' ?_
      intro n v hn
      rw [hpend'] at hn
      cases hn
    | true =>
      exact Stage.recovered hboot rfl hcommit hnil hpend' hhead'

end

theorem crashInv_readHead (hboot : s.boot = .start)
    (hread : Log.readHead s.runner s.op.log s.mem = .ok (log, m)) :
    CrashInv start d0
      { s with
        op := { s.op with log := log }
        cache := m.cache
        prog := installProg true log.lh.length
        boot := .recovering } := by
  have hstart := h.start_eq
  subst hstart
  have hup : s.boot ≠ .up := by
    rw [hboot]
    decide
  rcases readHead_ok h.ok h.dev_eq hread with ⟨hok, hdisk, rfl, hkeys⟩
  have hlh : readHeadBlock (s.view d0 s.op.log.start) = s.head := by
    rw [view_of_not_up hup]
    rfl
  cases h.stage with
  | start _ hprog hcommit hnil hpend =>
    refine
      { h with
        lh_le := by simp only [hlh]; exact h.head_le
        lh_home := by simp only [hlh]; exact h.recoverable.head_home
        users_key := ?_
        ok := ?_
        stage := ?_ }
    · intro u hu
      have hkey := h.users_key u hu
      exact ⟨hkey.left, hkeys u.buf u.blockno hkey.left (h.served.users_mem hu) hkey.right⟩
    · have hpins : s.pins = [] := by
        unfold Sys.pins
        rw [hboot]
      have hmem : m = { disk := s.disk, cache := m.cache } := by
        cases m
        simp only [Sys.mem] at hdisk
        rw [hdisk]
      rw [hpins, view_of_not_up hup, hmem] at hok
      rw [pins_recovering rfl, view_of_not_up hup, view_of_not_up (Boot.noConfusion)]
      exact hok
    · refine Stage.installing true 0 rfl hcommit (Nat.zero_le _) ?_ ?_ hpend
        (RedoLog.installed_zero _ _)
      · rw [Nat.sub_zero, installProg, List.range_eq_range']
      · exact hlh.symm
  | running h1 | logging k h1 =>
    exact absurd h1 hup
  | installing b k h1 | clearing b h1 =>
    cases b <;> (rw [hboot] at h1; cases h1)
  | recovered h1 =>
    rw [hboot] at h1
    cases h1

/-!
## Recovery
-/

theorem recovered_stage (hboot : s.boot = .recovering) (hprog : s.prog = []) :
    s.op.log.committing = false ∧ s.op.log.lh = [] ∧ s.pending = [] ∧ s.head = [] := by
  cases h.stage with
  | recovered _ _ h3 h4 h5 h6 =>
    exact ⟨h3, h4, h5, h6⟩
  | running h1 | logging k h1 | start h1 =>
    rw [hboot] at h1
    cases h1
  | installing b k _ _ _ h4 =>
    rw [hprog] at h4
    simp at h4
  | clearing b _ _ h3 =>
    rw [hprog] at h3
    cases h3

theorem crashInv_recovered (hboot : s.boot = .recovering) (hprog : s.prog = []) :
    CrashInv start d0 { s with boot := .up } := by
  have hstart := h.start_eq
  subst hstart
  rcases recovered_stage h hboot hprog with ⟨hcommit, hnil, hpend, hhead⟩
  have hup : s.boot ≠ .up := by
    rw [hboot]
    decide
  have hview : Sys.view d0 { s with boot := .up } = s.disk := by
    funext n
    by_cases hn : n ∈ homes s.op.log.start
    · rw [view_of_home (by rfl) (by exact hn)]
      simp only [hpend, Store.writeAll_nil]
      exact (h.recoverable.home_of_head_nil hhead n hn).symm
    · exact view_of_not_home hn
  refine { h with ok := ?_, stage := ?_ }
  · have hok := h.ok
    rw [pins_recovering hboot, view_of_not_up hup] at hok
    rw [hview, pins_of_prog_nil (by rfl) (by exact hprog)]
    simp only [hnil]
    exact hok
  · refine Stage.running rfl hprog hhead ?_
    intro n v hn
    simp only [hpend] at hn
    cases hn

theorem crashInv_step_micro {u : Micro} (hprog : s.prog = u :: rest)
    (hmicro : microStep s.runner (s.op.log, s.mem) u = .ok (log, m)) :
    CrashInv start d0 (s.micro u rest log m) := by
  cases h.stage with
  | running _ h2 | start _ h2 | recovered _ h2 =>
    rw [h2] at hprog
    cases hprog
  | logging k h1 h2 h3 h4 h5 h6 h7 h8 =>
    rcases cons_range h3 (hprog.symm.trans h5) with ⟨hk, rfl, rfl⟩ | ⟨rfl, rfl, rfl⟩
    · rcases map_eq_ok.mp hmicro with ⟨m', hbody, hm⟩
      cases hm
      exact crashInv_writeLog h h1 h2 hk hprog rfl h6 h7 h8 hbody
    · rcases map_eq_ok.mp hmicro with ⟨m', hbody, hm⟩
      cases hm
      exact crashInv_writeHead_commit h h1 h2 h4 hprog h6 h7 (fun j hj => h8 j hj hj) hbody
  | installing b k h1 h2 h3 h4 h5 h6 h7 =>
    rcases cons_range h3 (hprog.symm.trans h4) with ⟨hk, rfl, rfl⟩ | ⟨rfl, rfl, rfl⟩
    · rcases map_eq_ok.mp hmicro with ⟨m', hbody, hm⟩
      cases hm
      exact crashInv_install h h1 h2 hk hprog rfl h5 h6 h7 hbody
    · cases hmicro
      exact crashInv_clear h h1 h2 hprog h5 h6 h7
  | clearing b h1 h2 h3 h4 h5 h6 =>
    rw [hprog] at h3
    cases h3
    rcases map_eq_ok.mp hmicro with ⟨m', hbody, hm⟩
    cases hm
    exact crashInv_writeHead_clear h h1 h2 hprog h4 h5 h6 hbody

theorem crashInv_step {l : Label} (hstep : Step s l s') : CrashInv start d0 s' := by
  cases hstep with
  | beginOp hboot hop => exact crashInv_beginOp h hboot hop
  | bget _ hget => exact crashInv_bget _ h hget
  | lock _ hu hacq => exact crashInv_lock h hu hacq
  | logWrite hboot hu hlock hhome hlog hop =>
    exact crashInv_logWrite h hboot hu hlock hhome hlog hop
  | brelse _ hu hrel => exact crashInv_brelse h hu hrel
  | endOp hboot hop => exact crashInv_endOp h hboot hop
  | micro hprog hmicro => exact crashInv_step_micro h hprog hmicro
  | endCommit hboot hprog hop => exact crashInv_endCommit h hboot hprog hop
  | crash => exact crashInv_reboot h.start_eq h.dev_eq h.head_le h.recoverable
  | readHead hboot hread => exact crashInv_readHead h hboot hread
  | recovered hboot hprog => exact crashInv_recovered h hboot hprog

end

theorem crashInv_reachable (hempty : readHeadBlock (d0 start) = [])
    (hreach : (system start d0).Reachable s) : CrashInv start d0 s := by
  refine System.ReachableVia.invariant hreach ?_ ?_
  · rintro s rfl
    exact crashInv_init hempty
  · intro s l s' h _ hstep
    exact crashInv_step h hstep

end Log
end Xv6
