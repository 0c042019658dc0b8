import Xv6.Log.Crash

/-!
# Progress of commits and recoveries

When no process uses the cache, each piece of a commit or of a recovery finds its
buffers as long as the pinned blocks leave one buffer free.
-/

namespace Xv6
namespace Log

open Lib
open Bio

variable {i n pid start : Nat} {d0 view : Nat -> Block} {s : Sys} {m : Mem} {log : LogState}
variable {pins : List Nat} {rest : List Micro} {u : Micro} {ok : Sys -> Label -> Prop}

theorem card_map_blockKey (l : List Nat) :
    (l.map blockKey).toFinset.card = l.toFinset.card := by
  have himage : (l.map blockKey).toFinset = l.toFinset.image blockKey := by
    ext k
    simp
  rw [himage, Finset.card_image_of_injective _ blockKey_injective]

theorem acquire_exists {c : Bcache} (pid : Nat) (h : (c.buf i).lock = none) :
    exists c', acquire c pid i = some c' := by
  unfold acquire
  rw [h]
  exact ⟨_, rfl⟩

theorem bread_ok_iff {users : List Nat} (h : Ok m users pins view) (pid : Nat) (hn : n ∉ users) :
    (exists r, bread m pid ROOTDEV n = .ok r) <->
      n ∈ pins ∨ (users ++ pins).toFinset.card < NBUF := by
  have hmem : (ROOTDEV, n) ∈ (users ++ pins).map blockKey <-> n ∈ pins := by
    change blockKey n ∈ _ <-> _
    rw [List.mem_map_of_injective blockKey_injective, List.mem_append]
    exact or_iff_right hn
  have hget := bget_ok_iff h.inv ROOTDEV n
  rw [card_map_blockKey, hmem] at hget
  rw [← hget]
  constructor
  · rintro ⟨⟨m', i⟩, hread⟩
    rcases bread_eq_ok hread with ⟨c, _, hok, _⟩
    exact ⟨_, hok⟩
  · rintro ⟨⟨c, i⟩, hok⟩
    rcases bget_inv h.inv (by decide) hok with ⟨_, hi, hkey⟩
    have hlock : (c.buf i).lock = none := by
      rw [bget_lock h hok]
      by_contra hlock
      rcases h.lock_users i hi hlock with ⟨k, hk, hkey', _⟩
      have hk' := (bget_key h hok hi (List.mem_append_left pins hk) hkey').left
      rw [hkey] at hk'
      exact hn (blockKey_injective hk' ▸ hk)
    rcases acquire_exists pid hlock with ⟨c', hacq⟩
    unfold bread
    simp only [hok, hacq]
    exact ⟨_, rfl⟩

theorem bread_no_buffers {users : List Nat}
    (h : Ok m users pins view) (pid : Nat) (hn : n ∉ users) (hpin : n ∉ pins)
    (hfull : NBUF <= (users ++ pins).toFinset.card) :
    bread m pid ROOTDEV n = .error (.panic .bgetNoBuffers) := by
  have hget := bget_ok_iff h.inv ROOTDEV n
  rw [card_map_blockKey] at hget
  have hnone : ¬ exists r, bget m.cache ROOTDEV n = .ok r := by
    rw [hget]
    rintro (hmem | hlt)
    · have hmem' := (List.mem_map_of_injective blockKey_injective).mp hmem
      rcases List.mem_append.mp hmem' with hu | hp
      · exact hn hu
      · exact hpin hp
    · omega
  unfold bread
  cases hres : bget m.cache ROOTDEV n with
  | ok r =>
    exact absurd ⟨r, hres⟩ hnone
  | error p =>
    rw [bget_error hres]

/-!
## The pieces of a commit

Only the reads can fail: a buffer that is held can be written and released.
-/

theorem bwrite_exists (hold : Holds m pid i n) (v : Block) :
    exists m', bwrite (setData m i v) pid i = .ok m' :=
  ⟨_, bwrite_setData_eq hold v⟩

theorem release_exists (hold : Holds m pid i n) :
    exists m', release m pid i = .ok m' := by
  rcases release_eq hold with ⟨c, hrel, _⟩
  exact ⟨_, hrel⟩

theorem writeLogBody_exists (pid : Nat) {tail : Nat} (h : Ok m [] pins view)
    (hdev : log.dev = ROOTDEV) (hne : log.lh.getD tail 0 ≠ log.start + tail + 1)
    (hpin : log.lh.getD tail 0 ∈ pins) (hroom : pins.length < NBUF) :
    exists m', writeLogBody pid log m tail = .ok m' := by
  have hcard : pins.toFinset.card < NBUF :=
    Nat.lt_of_le_of_lt (List.toFinset_card_le pins) hroom
  rcases (bread_ok_iff h pid List.not_mem_nil).mpr (Or.inr hcard) with ⟨⟨m1, dst⟩, hdst⟩
  have h1 := bread_ok h hdst
  rcases (bread_ok_iff h1 pid (by simpa using hne)).mpr (Or.inl hpin) with
    ⟨⟨m2, src⟩, hsrc⟩
  have hholdDst := (bread_holds h hdst).bread h1 hsrc
  have hholdSrc := bread_holds h1 hsrc
  rcases bwrite_exists hholdDst (m2.cache.buf src).data with ⟨m3, hwrite⟩
  have hholdSrc3 := hholdSrc.setData hwrite hholdDst
  have hholdDst3 := hholdDst.setData hwrite hholdDst
  rcases release_exists hholdSrc3 with ⟨m4, hrel⟩
  have hholdDst4 := hholdDst3.release hholdSrc3 hne.symm hrel
  rcases release_exists hholdDst4 with ⟨m5, hrel'⟩
  refine ⟨m5, ?_⟩
  unfold writeLogBody copyData
  rw [hdev]
  simp only [hdst, hsrc, hwrite, hrel, hrel', bind, Except.bind]

theorem installBody_exists (pid : Nat) {tail : Nat} {recovering : Bool} (h : Ok m [] pins view)
    (hdev : log.dev = ROOTDEV) (hne : log.lh.getD tail 0 ≠ log.start + tail + 1)
    (hpin : pins = [] ∨ log.lh.getD tail 0 ∈ pins) (hroom : pins.length < NBUF) :
    exists m', installBody pid recovering log m tail = .ok m' := by
  have hcard : pins.toFinset.card < NBUF :=
    Nat.lt_of_le_of_lt (List.toFinset_card_le pins) hroom
  rcases (bread_ok_iff h pid List.not_mem_nil).mpr (Or.inr hcard) with ⟨⟨m1, lbuf⟩, hlbuf⟩
  have h1 := bread_ok h hlbuf
  have hroom1 : log.lh.getD tail 0 ∈ pins ∨
      ([log.start + tail + 1] ++ pins).toFinset.card < NBUF := by
    rcases hpin with hnil | hmem
    · rw [hnil]
      exact Or.inr (show 1 < NBUF by decide)
    · exact Or.inl hmem
  rcases (bread_ok_iff h1 pid (by simpa using hne)).mpr hroom1 with ⟨⟨m2, dbuf⟩, hdbuf⟩
  have hholdL := (bread_holds h hlbuf).bread h1 hdbuf
  have hholdD := bread_holds h1 hdbuf
  rcases bwrite_exists hholdD (m2.cache.buf lbuf).data with ⟨m3, hwrite⟩
  have hholdL3 := hholdL.setData hwrite hholdD
  have hholdD3 := hholdD.setData hwrite hholdD
  have hunpin : exists m4, (if recovering then m3 else unpin m3 dbuf) = m4 ∧
      Holds m4 pid lbuf (log.start + tail + 1) ∧ Holds m4 pid dbuf (log.lh.getD tail 0) := by
    cases recovering with
    | true => exact ⟨m3, rfl, hholdL3, hholdD3⟩
    | false => exact ⟨unpin m3 dbuf, rfl, hholdL3.unpin, hholdD3.unpin⟩
  rcases hunpin with ⟨m4, hm4, hholdL4, hholdD4⟩
  rcases release_exists hholdL4 with ⟨m5, hrel⟩
  have hholdD5 : Holds m5 pid dbuf (log.lh.getD tail 0) := hholdD4.release hholdL4 hne hrel
  rcases release_exists hholdD5 with ⟨m6, hrel'⟩
  refine ⟨m6, ?_⟩
  unfold installBody copyData
  rw [hdev]
  simp only [hlbuf, hdbuf, hwrite, hm4, hrel, hrel', bind, Except.bind]

theorem writeHead_exists (pid : Nat) (h : Ok m [] pins view) (hdev : log.dev = ROOTDEV)
    (hroom : pins.length < NBUF) : exists m', writeHead pid log m = .ok m' := by
  have hcard : pins.toFinset.card < NBUF :=
    Nat.lt_of_le_of_lt (List.toFinset_card_le pins) hroom
  rcases (bread_ok_iff h pid (n := log.start) List.not_mem_nil).mpr (Or.inr hcard) with
    ⟨⟨m1, buf⟩, hbuf⟩
  have hhold := bread_holds h hbuf
  rcases bwrite_exists hhold (putHead (m1.cache.buf buf).data log.lh) with ⟨m2, hwrite⟩
  rcases release_exists (hhold.setData hwrite hhold) with ⟨m3, hrel⟩
  refine ⟨m3, ?_⟩
  unfold writeHead
  rw [hdev]
  simp only [hbuf, hwrite, hrel, bind, Except.bind]

theorem readHead_exists (pid : Nat) (h : Ok m [] [] view) (hdev : log.dev = ROOTDEV) :
    exists r, readHead pid log m = .ok r := by
  rcases (bread_ok_iff h pid (n := log.start) List.not_mem_nil).mpr (Or.inr (by decide)) with
    ⟨⟨m1, buf⟩, hbuf⟩
  rcases release_exists (bread_holds h hbuf) with ⟨m2, hrel⟩
  unfold readHead
  rw [hdev]
  simp only [hbuf, hrel, bind, Except.bind]
  exact ⟨_, rfl⟩

/-!
## Whole commits and recoveries
-/

structure Sys.Roomy (s : Sys) : Prop where
  users_nil : s.users = []
  lh_lt : s.boot = .up -> s.op.log.lh.length < NBUF

theorem Sys.Roomy.pins_lt (h : s.Roomy) : s.pins.length < NBUF := by
  have hpos : 0 < NBUF := by decide
  unfold Sys.pins
  split
  · have hlt := h.lh_lt (by assumption)
    rw [List.length_drop]
    omega
  · exact hpos
  · exact h.lh_lt (by assumption)
  · exact hpos

theorem CrashInv.ok_nil (h : CrashInv start d0 s) (husers : s.users = []) :
    Ok s.mem [] s.pins (s.view d0) := by
  have hok := h.ok
  rw [husers] at hok
  exact hok

theorem logging_of_writeLog {k : Nat}
    (h : CrashInv start d0 s) (hprog : s.prog = .writeLog k :: rest) :
    k < s.op.log.lh.length ∧ s.pins = s.op.log.lh := by
  cases h.stage with
  | running _ h2 | start _ h2 | recovered _ h2 =>
    rw [h2] at hprog
    cases hprog
  | logging j h1 _ h3 _ h5 =>
    rcases cons_range h3 (hprog.symm.trans h5) with ⟨hj, heq, _⟩ | ⟨_, heq, _⟩
    · cases heq
      exact ⟨hj, pins_of_cons h1 hprog (Or.inl ⟨k, rfl⟩)⟩
    · cases heq
  | installing b j _ _ h3 h4 =>
    rcases cons_range h3 (hprog.symm.trans h4) with ⟨_, heq, _⟩ | ⟨_, heq, _⟩ <;> cases heq
  | clearing b _ _ h3 =>
    rw [h3] at hprog
    cases hprog

theorem installing_of_install {recovering : Bool} {k : Nat} (h : CrashInv start d0 s)
    (hprog : s.prog = .install recovering k :: rest) :
    k < s.op.log.lh.length ∧ (s.pins = [] ∨ s.op.log.lh.getD k 0 ∈ s.pins) := by
  cases h.stage with
  | running _ h2 | start _ h2 | recovered _ h2 =>
    rw [h2] at hprog
    cases hprog
  | logging j _ _ h3 _ h5 =>
    rcases cons_range h3 (hprog.symm.trans h5) with ⟨_, heq, _⟩ | ⟨_, heq, _⟩ <;> cases heq
  | installing b j h1 _ h3 h4 =>
    rcases cons_range h3 (hprog.symm.trans h4) with ⟨hj, heq, _⟩ | ⟨_, heq, _⟩
    · cases heq
      refine ⟨hj, ?_⟩
      cases recovering with
      | true => exact Or.inl (pins_recovering h1)
      | false =>
        apply Or.inr
        rw [pins_installing h1 h3 h4, (getD_mem hj).left, List.drop_eq_getElem_cons hj]
        exact List.mem_cons_self
    · cases heq
  | clearing b _ _ h3 =>
    rw [h3] at hprog
    cases hprog

theorem micro_exists (h : CrashInv start d0 s) (hroom : s.Roomy) (hprog : s.prog = u :: rest) :
    exists log m, microStep s.runner (s.op.log, s.mem) u = .ok (log, m) := by
  have hok := h.ok_nil hroom.users_nil
  have hlt := hroom.pins_lt
  have hle := h.lh_le
  have hne : forall k, k < s.op.log.lh.length ->
      s.op.log.lh.getD k 0 ≠ s.op.log.start + k + 1 := by
    intro k hk
    have hhome := h.lh_home _ (getD_mem hk).right
    rw [← h.start_eq] at hhome
    exact homes_ne_slot hhome (by omega)
  cases u with
  | clear =>
    exact ⟨_, _, rfl⟩
  | writeHead =>
    rcases writeHead_exists s.runner hok h.dev_eq hlt with ⟨m, hm⟩
    exact ⟨s.op.log, m, map_eq_ok.mpr ⟨m, hm, rfl⟩⟩
  | writeLog k =>
    rcases logging_of_writeLog h hprog with ⟨hk, hpins⟩
    rw [hpins] at hok hlt
    rcases writeLogBody_exists s.runner hok h.dev_eq (hne k hk)
      (getD_mem hk).right hlt with ⟨m, hm⟩
    exact ⟨s.op.log, m, map_eq_ok.mpr ⟨m, hm, rfl⟩⟩
  | install recovering k =>
    rcases installing_of_install h hprog with ⟨hk, hpins⟩
    rcases installBody_exists s.runner hok h.dev_eq (hne k hk) hpins hlt with
      ⟨m, hm⟩
    exact ⟨s.op.log, m, map_eq_ok.mpr ⟨m, hm, rfl⟩⟩

theorem microStep_log {log' : LogState} {m' : Mem} (h : microStep pid (log, m) u = .ok (log', m')) :
    log' = log ∨ log' = { log with lh := [] } := by
  cases u with
  | clear =>
    cases h
    exact Or.inr rfl
  | writeLog _ | writeHead | install _ _ =>
    rcases map_eq_ok.mp h with ⟨_, _, heq⟩
    cases heq
    exact Or.inl rfl

theorem Sys.Roomy.micro (h : s.Roomy)
    (hmicro : microStep s.runner (s.op.log, s.mem) u = .ok (log, m)) :
    (s.micro u rest log m).Roomy := by
  refine { users_nil := h.users_nil, lh_lt := ?_ }
  intro hboot
  rcases microStep_log hmicro with rfl | rfl
  · exact h.lh_lt hboot
  · change 0 < NBUF
    decide

theorem commitPoint_up (h : CrashInv start d0 s) (hprog : s.prog = u :: rest)
    (hpoint : CommitPoint s.op.log u) : s.boot = .up := by
  rcases hpoint with ⟨rfl, hne⟩
  cases h.stage with
  | running h1 | logging _ h1 =>
    exact h1
  | installing b j _ _ h3 h4 =>
    rcases cons_range h3 (hprog.symm.trans h4) with ⟨_, heq, _⟩ | ⟨_, heq, _⟩ <;> cases heq
  | clearing b _ _ _ h4 =>
    exact absurd h4 hne
  | start _ h2 | recovered _ h2 =>
    rw [h2] at hprog
    cases hprog

structure Ran (s s' : Sys) : Prop where
  prog_nil : s'.prog = []
  boot_eq : s'.boot = s.boot
  history_eq : s.boot ≠ .up -> s'.history = s.history
  run : s.prog.foldlM (microStep s.runner) (s.op.log, s.mem) = .ok (s'.op.log, s'.mem)

theorem reachable_prog (hok : forall s, ok s .micro)
    (hreach : (system start d0).ReachableVia ok s) (h : CrashInv start d0 s) (hroom : s.Roomy) :
    exists s', (system start d0).ReachableVia ok s' ∧ Ran s s' := by
  induction hprog : s.prog generalizing s with
  | nil =>
    refine ⟨s, hreach, hprog, rfl, fun _ => rfl, ?_⟩
    rw [hprog]
    rfl
  | cons u rest ih =>
    rcases micro_exists h hroom hprog with ⟨log, m, hstep⟩
    rcases ih (hreach.step (hok s) (Step.micro hprog hstep))
      (crashInv_step_micro h hprog hstep) (hroom.micro hstep) rfl with ⟨s', hreach', hran⟩
    refine ⟨s', hreach', hran.prog_nil, hran.boot_eq, ?_, ?_⟩
    · intro hboot
      have hpoint : ¬ CommitPoint s.op.log u :=
        fun hp => hboot (commitPoint_up h hprog hp)
      rw [hran.history_eq hboot]
      simp only [Sys.micro, if_neg hpoint]
    · rw [hprog, List.foldlM_cons, hstep]
      exact hran.run

/-- From every state a crash leads to a recovery that runs to completion, and no
committed transaction is lost on the way. -/
theorem recovery_completes (hempty : readHeadBlock (d0 start) = [])
    (hreach : (system start d0).Reachable s) :
    exists s', (system start d0).Reachable s' ∧ s'.boot = .recovering ∧ s'.prog = [] ∧
      s'.history = s.history := by
  have hcrash : (system start d0).Reachable s.reboot := hreach.step trivial Step.crash
  have h := crashInv_reachable hempty hcrash
  have hmem := h.ok_nil rfl
  have hpins : s.reboot.pins = [] := rfl
  rw [hpins] at hmem
  rcases readHead_exists s.runner hmem h.dev_eq with ⟨⟨log, m⟩, hhead⟩
  rcases reachable_prog (fun _ => trivial) (hcrash.step trivial (Step.readHead rfl hhead))
    (crashInv_readHead h rfl hhead) { users_nil := rfl, lh_lt := fun hup => by cases hup } with
    ⟨s', hreach', hran⟩
  exact ⟨s', hreach', hran.boot_eq, hran.prog_nil, hran.history_eq nofun⟩

/-!
## Crash atomicity
-/

/-- Once a recovery has run to completion, whatever crashes came before or during
it, every home block holds the image with exactly the committed transactions
applied, and the header on disk is empty. -/
theorem recovery_restores_durable {start : Nat} {d0 : Nat -> Block}
    (hempty : readHeadBlock (d0 start) = []) {s : Sys} (hreach : (system start d0).Reachable s)
    (hboot : s.boot = .recovering) (hprog : s.prog = []) :
    (forall n, n ∈ homes start -> s.disk n = s.durable d0 n) ∧
      readHeadBlock (s.disk start) = [] := by
  have hinv := crashInv_reachable hempty hreach
  have hhead : readHeadBlock (s.disk start) = [] := by
    rw [← hinv.start_eq]
    exact (recovered_stage hinv hboot hprog).right.right.right
  exact ⟨hinv.recoverable.home_of_head_nil hhead, hhead⟩

def crashed : List Label :=
  [.readHead, .micro, .micro, .recovered, .beginOp 1, .bget 1 46,
    .lock { pid := 1, buf := 1, blockno := 46 },
    .logWrite { pid := 1, buf := 1, blockno := 46 } (fun _ => 7),
    .brelse { pid := 1, buf := 1, blockno := 46 }, .endOp 1, .micro, .micro, .crash, .readHead,
    .micro, .micro, .micro]

/-- A transaction that writes one block is committed, the power fails before the
block is installed, and the recovery installs it. -/
theorem recovery_restores_durable_after_crash :
    exists s, (system 2 (fun _ _ => 0)).Reachable s ∧ s.boot = .recovering ∧ s.prog = [] ∧
      s.history = [[(46, fun _ => 7)]] ∧ s.disk 46 = (fun _ => 7) ∧
      readHeadBlock (s.disk 2) = [] := by
  have hrun : (System.run Sys.exec (fun _ _ => True) (Sys.init 2 fun _ _ => 0) crashed).map
      (fun s => (s.boot, s.prog, s.history)) =
        some (.recovering, [], [[(46, fun _ => 7)]]) := by
    with_unfolding_all rfl
  rcases Option.map_eq_some_iff.mp hrun with ⟨s, hrun, heq⟩
  rcases Prod.mk.inj heq with ⟨hboot, heq⟩
  rcases Prod.mk.inj heq with ⟨hprog, hhist⟩
  have hinit : (system 2 (fun _ _ => 0)).Reachable (Sys.init 2 fun _ _ => 0) := .init rfl
  have hreach := hinit.run (fun _ _ _ => Sys.exec_step) hrun
  have hempty : readHeadBlock ((fun _ _ => 0 : Nat -> Block) 2) = [] := by decide +kernel
  have hres := recovery_restores_durable hempty hreach hboot hprog
  refine ⟨s, hreach, hboot, hprog, hhist, ?_, hres.right⟩
  rw [hres.left 46 (by decide)]
  unfold Sys.durable
  rw [hhist]
  rfl

end Log
end Xv6
