import Mathlib.Data.Finset.Card
import Mathlib.Algebra.BigOperators.Group.List.Basic
import Mathlib.Algebra.Order.BigOperators.Group.List
import Mathlib.Tactic.Linarith
import Xv6.Lib.Transition
import Xv6.Param

/-!
# Log space reservation

The in-memory part of `log.c`: admission of an operation in `begin_op`, the
absorbing append of `log_write`, and the group commit that the last `end_op`
starts.  Disk blocks and buffers are added on top of this module; here a logged
block is only its number.
-/

namespace Xv6
namespace Log

inductive Panic where
  | tooBigATransaction
  | logWriteOutsideOfTrans
  | logCommitting
deriving DecidableEq, Repr

structure LogState where
  start : Nat
  outstanding : Int
  committing : Bool
  dev : Nat
  lh : List Nat
deriving DecidableEq, Repr

/-- One round of the loop of `begin_op`; `none` is the branch that sleeps. -/
def beginOp (log : LogState) : Option LogState :=
  if log.committing then
    none
  else if (log.lh.length : Int) + (log.outstanding + 1) * MAXOPBLOCKS > LOGBLOCKS then
    none
  else
    some { log with outstanding := log.outstanding + 1 }

def endOp (log : LogState) : Except Panic (LogState × Bool) :=
  let log := { log with outstanding := log.outstanding - 1 }
  if log.committing then
    .error .logCommitting
  else if log.outstanding = 0 then
    .ok ({ log with committing := true }, true)
  else
    .ok (log, false)

/-- `log_write` on block number `b`; the flag says that the block is new in the
header, so that its buffer is pinned. -/
def logWrite (log : LogState) (b : Nat) : Except Panic (LogState × Bool) :=
  if log.lh.length >= LOGBLOCKS then
    .error .tooBigATransaction
  else if log.outstanding < 1 then
    .error .logWriteOutsideOfTrans
  else
    let i := log.lh.findIdx (fun c => c == b)
    if i = log.lh.length then
      .ok ({ log with lh := log.lh ++ [b] }, true)
    else
      .ok ({ log with lh := log.lh.set i b }, false)

/-!
## What the three functions do
-/

variable {log : LogState} {fresh : Bool} {s' : OpState}

theorem beginOp_eq_some {log' : LogState} (h : beginOp log = some log') :
    log.committing = false ∧
      (log.lh.length : Int) + (log.outstanding + 1) * MAXOPBLOCKS <= LOGBLOCKS ∧
      log' = { log with outstanding := log.outstanding + 1 } := by
  unfold beginOp at h
  by_cases hc : log.committing = true
  · simp [hc] at h
  · by_cases hroom :
        (log.lh.length : Int) + (log.outstanding + 1) * MAXOPBLOCKS > LOGBLOCKS
    · simp [hc, hroom] at h
    · rw [if_neg hc, if_neg hroom] at h
      cases h
      exact ⟨by simpa using hc, by omega, rfl⟩

theorem endOp_eq_ok {log' : LogState} {last : Bool} (h : endOp log = .ok (log', last)) :
    log.committing = false ∧
      log' = { log with
        outstanding := log.outstanding - 1
        committing := decide (log.outstanding = 1) } ∧
      last = decide (log.outstanding = 1) := by
  unfold endOp at h
  by_cases hc : log.committing = true
  · simp [hc] at h
  · have hfalse : log.committing = false := by simpa using hc
    by_cases hlast : log.outstanding = 1
    · simp [hfalse, hlast] at h
      simp [hfalse, hlast, ← h.left, ← h.right]
    · have hne : ¬ log.outstanding - 1 = 0 := by omega
      simp [hfalse, hne] at h
      simp [hfalse, hlast, ← h.left, ← h.right]

theorem set_findIdx_self (l : List Nat) (b : Nat) :
    l.set (l.findIdx (fun c => c == b)) b = l := by
  induction l with
  | nil =>
    rfl
  | cons c rest ih =>
    by_cases hcb : c = b
    · simp [List.findIdx_cons, hcb]
    · have hbeq : (c == b) = false := by
        simpa using hcb
      rw [List.findIdx_cons, hbeq]
      simp [ih]

theorem findIdx_eq_length_iff (l : List Nat) (b : Nat) :
    l.findIdx (fun c => c == b) = l.length <-> b ∉ l := by
  rw [List.findIdx_eq_length]
  constructor
  · intro h hb
    simpa using h b hb
  · intro h c hc
    simp only [beq_eq_false_iff_ne]
    intro heq
    exact h (heq ▸ hc)

/-!
Below the capacity check the header either absorbs the block or grows by it.
-/

theorem logWrite_mem {b : Nat} (hroom : log.lh.length < LOGBLOCKS) (hin : 1 <= log.outstanding)
    (hmem : b ∈ log.lh) :
    logWrite log b = .ok (log, false) := by
  have hidx : ¬ log.lh.findIdx (fun c => c == b) = log.lh.length := by
    rw [findIdx_eq_length_iff]
    exact fun h => h hmem
  unfold logWrite
  rw [if_neg (by omega), if_neg (by omega)]
  simp only [hidx, if_false, set_findIdx_self]

theorem logWrite_new {b : Nat} (hroom : log.lh.length < LOGBLOCKS) (hin : 1 <= log.outstanding)
    (hnew : b ∉ log.lh) :
    logWrite log b = .ok ({ log with lh := log.lh ++ [b] }, true) := by
  have hidx : log.lh.findIdx (fun c => c == b) = log.lh.length :=
    (findIdx_eq_length_iff log.lh b).mpr hnew
  unfold logWrite
  rw [if_neg (by omega), if_neg (by omega)]
  simp only [hidx, if_true]

theorem logWrite_full (b : Nat) (hfull : LOGBLOCKS <= log.lh.length) :
    logWrite log b = .error .tooBigATransaction := by
  unfold logWrite
  rw [if_pos hfull]

theorem logWrite_eq_ok {log' : LogState} {b : Nat} (h : logWrite log b = .ok (log', fresh)) :
    log.lh.length < LOGBLOCKS ∧ 1 <= log.outstanding ∧
      ((b ∈ log.lh ∧ log' = log ∧ fresh = false) ∨
        (b ∉ log.lh ∧ log' = { log with lh := log.lh ++ [b] } ∧ fresh = true)) := by
  by_cases hroom : log.lh.length < LOGBLOCKS
  · by_cases hin : 1 <= log.outstanding
    · refine ⟨hroom, hin, ?_⟩
      by_cases hmem : b ∈ log.lh
      · rw [logWrite_mem hroom hin hmem] at h
        cases h
        exact Or.inl ⟨hmem, rfl, rfl⟩
      · rw [logWrite_new hroom hin hmem] at h
        cases h
        exact Or.inr ⟨hmem, rfl, rfl⟩
    · unfold logWrite at h
      rw [if_neg (by omega), if_pos (by omega)] at h
      cases h
  · rw [logWrite_full b (by omega)] at h
    cases h

theorem logWrite_fields {log' : LogState} {b : Nat} (h : logWrite log b = .ok (log', fresh)) :
    log'.start = log.start ∧ log'.dev = log.dev ∧ log'.outstanding = log.outstanding ∧
      log'.committing = log.committing ∧ log'.lh.length <= LOGBLOCKS ∧
      forall c, c ∈ log'.lh <-> c ∈ log.lh ∨ c = b := by
  rcases logWrite_eq_ok h with ⟨hroom, _, ⟨hmem, rfl, _⟩ | ⟨_, rfl, _⟩⟩
  · refine ⟨rfl, rfl, rfl, rfl, Nat.le_of_lt hroom, fun c => ⟨Or.inl, ?_⟩⟩
    rintro (hc | rfl)
    · exact hc
    · exact hmem
  · refine ⟨rfl, rfl, rfl, rfl, ?_, fun c => ?_⟩
    · simp only [List.length_append, List.length_singleton]
      omega
    · simp only [List.mem_append, List.mem_singleton]

/-!
## Operations

An operation is a system call between its `begin_op` and its `end_op`, with the
distinct block numbers it has passed to `log_write` so far.
-/

@[ext]
structure Op where
  pid : Nat
  touched : Finset Nat

instance : DecidableEq Op := fun _ _ =>
  decidable_of_iff _ Op.ext_iff.symm

/-- The log with the operations in progress and the blocks logged since the last
commit. -/
@[ext]
structure OpState where
  log : LogState
  ops : List Op
  logged : Finset Nat

instance : DecidableEq OpState := fun _ _ =>
  decidable_of_iff _ OpState.ext_iff.symm

inductive OpLabel where
  | beginOp (pid : Nat)
  | logWrite (pid b : Nat)
  | endOp (pid : Nat)
  | clear
  | endCommit

inductive OpStep : OpState -> OpLabel -> OpState -> Prop where
  | beginOp {s : OpState} {pid : Nat} {log' : LogState} :
      (forall op, op ∈ s.ops -> op.pid ≠ pid) ->
      beginOp s.log = some log' ->
      OpStep s (.beginOp pid)
        { s with log := log', ops := { pid := pid, touched := ∅ } :: s.ops }
  | logWrite {s : OpState} {left right : List Op} {op : Op} {b : Nat}
      {log' : LogState} {fresh : Bool} :
      s.ops = left ++ op :: right ->
      logWrite s.log b = .ok (log', fresh) ->
      OpStep s (.logWrite op.pid b)
        { log := log'
          ops := left ++ { op with touched := insert b op.touched } :: right
          logged := insert b s.logged }
  | endOp {s : OpState} {left right : List Op} {op : Op}
      {log' : LogState} {last : Bool} :
      s.ops = left ++ op :: right ->
      endOp s.log = .ok (log', last) ->
      OpStep s (.endOp op.pid) { s with log := log', ops := left ++ right }
  | clear {s : OpState} :
      s.log.committing = true ->
      OpStep s .clear { s with log := { s.log with lh := [] }, logged := ∅ }
  | endCommit {s : OpState} :
      s.log.committing = true ->
      s.log.lh = [] ->
      OpStep s .endCommit { s with log := { s.log with committing := false } }

variable {b dev start : Nat} {left right : List Op} {s : OpState} {op : Op} {log' : LogState}

structure Counted (s : OpState) : Prop where
  outstanding_eq : s.log.outstanding = s.ops.length
  quiet : s.log.committing = true -> s.ops = []

theorem Counted.step {l : OpLabel} (h : Counted s) (hstep : OpStep s l s') :
    Counted s' := by
  cases hstep with
  | beginOp _ hbegin =>
    rcases beginOp_eq_some hbegin with ⟨hcommit, _, rfl⟩
    refine ⟨by simp [h.outstanding_eq], fun hc => ?_⟩
    rw [hcommit] at hc
    cases hc
  | logWrite hops hwrite =>
    rcases logWrite_fields hwrite with ⟨_, _, hout, hcommit, _⟩
    refine ⟨by simp [hout, h.outstanding_eq, hops], fun hc => ?_⟩
    have hnil := h.quiet (hcommit ▸ hc)
    simp [hops] at hnil
  | @endOp left right o log last hops hend =>
    rcases endOp_eq_ok hend with ⟨_, rfl, _⟩
    have hlen : s.log.outstanding = (left ++ right).length + 1 := by
      rw [h.outstanding_eq, hops]
      simp
      omega
    refine ⟨by simp [hlen], fun hc => List.eq_nil_of_length_eq_zero ?_⟩
    simp only [decide_eq_true_eq, hlen] at hc
    simp only
    omega
  | clear _ => exact ⟨h.outstanding_eq, h.quiet⟩
  | endCommit => exact ⟨h.outstanding_eq, nofun⟩

theorem Counted.not_committing {pid : Nat} (h : Counted s)
    (hstep : OpStep s (.logWrite pid b) s') : s.log.committing = false := by
  cases hstep with
  | logWrite hops _ =>
    rw [← Bool.not_eq_true]
    intro hc
    have hnil := h.quiet hc
    simp [hops] at hnil

def OpState.boot (start dev : Nat) : OpState :=
  { log := { start := start, outstanding := 0, committing := false, dev := dev, lh := [] }
    ops := []
    logged := ∅ }

def opSystem (start dev : Nat) : Lib.System OpState OpLabel :=
  { init := fun s => s = OpState.boot start dev
    step := OpStep }

/-- Every operation logs at most `MAXOPBLOCKS` distinct blocks. -/
def Respects (s : OpState) : OpLabel -> Prop
  | .logWrite pid b =>
    forall op, op ∈ s.ops -> op.pid = pid ->
      (insert b op.touched).card <= MAXOPBLOCKS
  | _ => True

/-!
## The reservation invariant

What an operation may still log is reserved for it: the blocks in the header
plus the unused reservations of all operations in progress fit in the log.
-/

def unused (op : Op) : Nat :=
  MAXOPBLOCKS - op.touched.card

structure ReservationInv (s : OpState) : Prop where
  outstanding_eq : s.log.outstanding = s.ops.length
  nodup : s.log.lh.Nodup
  touched_mem : forall op, op ∈ s.ops -> forall b, b ∈ op.touched -> b ∈ s.log.lh
  touched_card : forall op, op ∈ s.ops -> op.touched.card <= MAXOPBLOCKS
  logged_mem : forall b, b ∈ s.logged -> b ∈ s.log.lh
  room : s.log.lh.length + (s.ops.map unused).sum <= LOGBLOCKS
  quiet : s.log.committing = true -> s.ops = []

theorem ReservationInv.counted (h : ReservationInv s) : Counted s :=
  ⟨h.outstanding_eq, h.quiet⟩

theorem reservationInv_boot (start dev : Nat) :
    ReservationInv (OpState.boot start dev) := by
  constructor <;> simp [OpState.boot]

theorem sum_unused_le (ops : List Op) :
    (ops.map unused).sum <= ops.length * MAXOPBLOCKS := by
  induction ops with
  | nil =>
    simp
  | cons op rest ih =>
    have hop : unused op <= MAXOPBLOCKS := Nat.sub_le _ _
    rw [List.map_cons, List.sum_cons, List.length_cons, Nat.succ_mul]
    omega

theorem reservationInv_beginOp {pid : Nat} (hinv : ReservationInv s)
    (hnew : forall op, op ∈ s.ops -> op.pid ≠ pid) (hbegin : beginOp s.log = some log') :
    ReservationInv
      { s with log := log', ops := { pid := pid, touched := ∅ } :: s.ops } := by
  have hcounted := hinv.counted.step (.beginOp hnew hbegin)
  rcases beginOp_eq_some hbegin with ⟨hcommit, hroom, rfl⟩
  refine ⟨hcounted.outstanding_eq, hinv.nodup, ?_, ?_, hinv.logged_mem, ?_, hcounted.quiet⟩
  · intro op hop b hb
    rcases List.mem_cons.mp hop with rfl | hold
    · simp at hb
    · exact hinv.touched_mem op hold b hb
  · intro op hop
    rcases List.mem_cons.mp hop with rfl | hold
    · simp
    · exact hinv.touched_card op hold
  · have hsum := sum_unused_le s.ops
    rw [hinv.outstanding_eq] at hroom
    simp only [List.map_cons, List.sum_cons]
    have hnew : unused { pid := pid, touched := ∅ } = MAXOPBLOCKS := by
      simp [unused]
    rw [hnew]
    zify at hsum ⊢
    linarith

/-!
Recording one more block of an operation uses up at least as much of its
reservation as the header grows.
-/

theorem unused_insert_of_new (hnew : b ∉ op.touched)
    (hcard : (insert b op.touched).card <= MAXOPBLOCKS) :
    unused op = unused { op with touched := insert b op.touched } + 1 := by
  unfold unused
  rw [Finset.card_insert_of_notMem hnew] at hcard ⊢
  omega

theorem unused_insert_le (op : Op) (b : Nat) :
    unused { op with touched := insert b op.touched } <= unused op := by
  unfold unused
  have hle : op.touched.card <= (insert b op.touched).card :=
    Finset.card_le_card (Finset.subset_insert b op.touched)
  simp only
  omega

theorem mem_replace {op' x : Op} (op : Op) (hx : x ∈ left ++ op' :: right) :
    x = op' ∨ x ∈ left ++ op :: right := by
  simp only [List.mem_append, List.mem_cons] at hx ⊢
  tauto

theorem reservationInv_logWrite (hinv : ReservationInv s) (hops : s.ops = left ++ op :: right)
    (hcard : (insert b op.touched).card <= MAXOPBLOCKS)
    (hwrite : logWrite s.log b = .ok (log', fresh)) :
    ReservationInv
      { log := log'
        ops := left ++ { op with touched := insert b op.touched } :: right
        logged := insert b s.logged } := by
  have hopMem : op ∈ s.ops := by
    rw [hops]
    simp
  have hcounted := hinv.counted.step (.logWrite hops hwrite)
  rcases logWrite_fields hwrite with ⟨_, _, _, _, _, hmem⟩
  have hsub : forall c, c ∈ s.log.lh -> c ∈ log'.lh := fun c hc => (hmem c).mpr (Or.inl hc)
  have hb : b ∈ log'.lh := (hmem b).mpr (Or.inr rfl)
  refine ⟨hcounted.outstanding_eq, ?_, ?_, ?_, ?_, ?_, hcounted.quiet⟩
  · rcases (logWrite_eq_ok hwrite).right.right with ⟨_, rfl, _⟩ | ⟨hnew, rfl, _⟩
    · exact hinv.nodup
    · exact List.nodup_append.mpr
        ⟨hinv.nodup, by simp, by
          intro c hc d hd heq
          rw [List.mem_singleton.mp hd] at heq
          exact hnew (heq ▸ hc)⟩
  · intro x hx c hc
    rcases mem_replace op hx with rfl | hold
    · rcases Finset.mem_insert.mp hc with rfl | htouched
      · exact hb
      · exact hsub c (hinv.touched_mem op hopMem c htouched)
    · exact hsub c (hinv.touched_mem x (by rw [hops]; exact hold) c hc)
  · intro x hx
    rcases mem_replace op hx with rfl | hold
    · exact hcard
    · exact hinv.touched_card x (by rw [hops]; exact hold)
  · intro c hc
    rcases Finset.mem_insert.mp hc with rfl | hlogged
    · exact hb
    · exact hsub c (hinv.logged_mem c hlogged)
  · have hroom := hinv.room
    rw [hops] at hroom
    simp only [List.map_append, List.map_cons, List.sum_append, List.sum_cons] at hroom ⊢
    rcases (logWrite_eq_ok hwrite).right.right with ⟨_, rfl, _⟩ | ⟨hnew, rfl, _⟩
    · have hle := unused_insert_le op b
      omega
    · have hfresh : b ∉ op.touched := by
        intro hmem
        exact hnew (hinv.touched_mem op hopMem b hmem)
      have heq := unused_insert_of_new hfresh hcard
      simp only [List.length_append, List.length_cons, List.length_nil]
      omega

theorem reservationInv_endOp {last : Bool}
    (hinv : ReservationInv s) (hops : s.ops = left ++ op :: right)
    (hend : endOp s.log = .ok (log', last)) :
    ReservationInv { s with log := log', ops := left ++ right } := by
  have hcounted := hinv.counted.step (.endOp hops hend)
  rcases endOp_eq_ok hend with ⟨_, rfl, _⟩
  have hkeep : forall x, x ∈ left ++ right -> x ∈ s.ops := by
    intro x hx
    rw [hops]
    simp only [List.mem_append, List.mem_cons] at hx ⊢
    tauto
  refine ⟨hcounted.outstanding_eq, hinv.nodup, fun x hx => hinv.touched_mem x (hkeep x hx),
    fun x hx => hinv.touched_card x (hkeep x hx), hinv.logged_mem, ?_, hcounted.quiet⟩
  have hroom := hinv.room
  rw [hops] at hroom
  simp only [List.map_append, List.map_cons, List.sum_append, List.sum_cons] at hroom ⊢
  omega

theorem reservationInv_step {l : OpLabel}
    (hinv : ReservationInv s) (hok : Respects s l) (hstep : OpStep s l s') :
    ReservationInv s' := by
  cases hstep with
  | beginOp hnew hbegin =>
    exact reservationInv_beginOp hinv hnew hbegin
  | logWrite hops hwrite =>
    exact reservationInv_logWrite hinv hops (hok _ (by rw [hops]; simp) rfl) hwrite
  | endOp hops hend =>
    exact reservationInv_endOp hinv hops hend
  | clear hcommit =>
    have hnil := hinv.quiet hcommit
    have hzero := hinv.outstanding_eq
    constructor <;> simp_all
  | endCommit hcommit hnil =>
    have hops := hinv.quiet hcommit
    exact { hinv with quiet := fun _ => hops }

theorem reservationInv_reachable
    (hreach : (opSystem start dev).ReachableVia Respects s) : ReservationInv s := by
  apply hreach.invariant
  · rintro s rfl
    exact reservationInv_boot start dev
  · intro s l s' hinv hok hstep
    exact reservationInv_step hinv hok hstep

/-!
## The reservation is sound, up to the capacity check

The reservation leaves room for every new block.  The capacity check of
`log_write` however comes before the absorption scan, so a full log also refuses
a block it already holds.
-/

/-- The write that the capacity check refuses: the log is full and `b` is in it. -/
def RelogsWhenFull (s : OpState) (b : Nat) : Prop :=
  s.log.lh.length = LOGBLOCKS ∧ b ∈ s.log.lh

theorem room_for_new (hinv : ReservationInv s) (hop : op ∈ s.ops)
    (hcard : (insert b op.touched).card <= MAXOPBLOCKS) (hnew : b ∉ s.log.lh) :
    s.log.lh.length < LOGBLOCKS := by
  have hfresh : b ∉ op.touched := by
    intro hmem
    exact hnew (hinv.touched_mem op hop b hmem)
  have hunused : 1 <= unused op := by
    rw [unused_insert_of_new hfresh hcard]
    omega
  have hsum : unused op <= (s.ops.map unused).sum :=
    List.single_le_sum (by simp) _ (List.mem_map_of_mem hop)
  have hroom := hinv.room
  omega

theorem logWrite_ok_iff (hinv : ReservationInv s) (hop : op ∈ s.ops)
    (hcard : (insert b op.touched).card <= MAXOPBLOCKS) :
    (exists r, logWrite s.log b = .ok r) <-> ¬ RelogsWhenFull s b := by
  have hin : 1 <= s.log.outstanding := by
    rw [hinv.outstanding_eq]
    have hpos := List.length_pos_of_mem hop
    omega
  have hle : s.log.lh.length <= LOGBLOCKS := by
    have hroom := hinv.room
    omega
  constructor
  · intro hok hfull
    rcases hok with ⟨r, hr⟩
    rw [logWrite_full b (by rw [hfull.left])] at hr
    cases hr
  · intro hnot
    by_cases hmem : b ∈ s.log.lh
    · have hlt : s.log.lh.length < LOGBLOCKS := by
        rcases Nat.lt_or_eq_of_le hle with hlt | heq
        · exact hlt
        · exact absurd ⟨heq, hmem⟩ hnot
      exact ⟨_, logWrite_mem hlt hin hmem⟩
    · exact ⟨_, logWrite_new (room_for_new hinv hop hcard hmem) hin hmem⟩

theorem log_reservation_sound {start dev : Nat} {s : OpState}
    (hreach : (opSystem start dev).ReachableVia Respects s) :
    s.log.lh.length <= LOGBLOCKS ∧ s.log.lh.Nodup ∧
      (forall b, b ∈ s.logged -> b ∈ s.log.lh) ∧
      (forall op, op ∈ s.ops -> forall b, Respects s (.logWrite op.pid b) ->
        ((exists r, logWrite s.log b = .ok r) <-> ¬ RelogsWhenFull s b)) := by
  have hinv := reservationInv_reachable hreach
  refine ⟨?_, hinv.nodup, hinv.logged_mem, ?_⟩
  · have hroom := hinv.room
    omega
  · intro op hop b hres
    exact logWrite_ok_iff hinv hop (hres op hop rfl)

/-!
## Running the operations

The steps of the operations as a function, to follow a given run.
-/

/-- The operation of process `pid`, with those before and after it. -/
def takeOp (pid : Nat) : List Op -> Option (List Op × Op × List Op)
  | [] => none
  | o :: ops =>
    if o.pid = pid then
      some ([], o, ops)
    else
      (takeOp pid ops).map (fun r => (o :: r.1, r.2))

theorem takeOp_eq_some {pid : Nat} {ops left right : List Op} {o : Op}
    (h : takeOp pid ops = some (left, o, right)) : ops = left ++ o :: right ∧ o.pid = pid := by
  induction ops generalizing left with
  | nil => cases h
  | cons x ops ih =>
    unfold takeOp at h
    by_cases hx : x.pid = pid
    · rw [if_pos hx] at h
      cases h
      exact ⟨rfl, hx⟩
    · rw [if_neg hx] at h
      rcases Option.map_eq_some_iff.mp h with ⟨⟨l, r⟩, hrest, heq⟩
      cases heq
      rcases ih hrest with ⟨rfl, hpid⟩
      exact ⟨rfl, hpid⟩

def opExec (s : OpState) : OpLabel -> Option OpState
  | .beginOp pid =>
    if s.ops.all (fun o => o.pid != pid) then
      (beginOp s.log).map (fun log =>
        { s with log := log, ops := { pid := pid, touched := ∅ } :: s.ops })
    else
      none
  | .logWrite pid b =>
    match takeOp pid s.ops, logWrite s.log b with
    | some (left, o, right), .ok (log, _) =>
      some
        { log := log
          ops := left ++ { o with touched := insert b o.touched } :: right
          logged := insert b s.logged }
    | _, _ => none
  | .endOp pid =>
    match takeOp pid s.ops, endOp s.log with
    | some (left, _, right), .ok (log, _) =>
      some { s with log := log, ops := left ++ right }
    | _, _ => none
  | .clear =>
    if s.log.committing then
      some { s with log := { s.log with lh := [] }, logged := ∅ }
    else
      none
  | .endCommit =>
    if s.log.committing ∧ s.log.lh = [] then
      some { s with log := { s.log with committing := false } }
    else
      none

theorem opExec_step {l : OpLabel} (h : opExec s l = some s') : OpStep s l s' := by
  cases l with
  | beginOp pid =>
    unfold opExec at h
    dsimp only at h
    split at h
    · rename_i hall
      rcases Option.map_eq_some_iff.mp h with ⟨log, hlog, rfl⟩
      refine OpStep.beginOp (fun o ho => ?_) hlog
      have hne := List.all_eq_true.mp hall o ho
      simpa using hne
    · cases h
  | logWrite pid b =>
    unfold opExec at h
    dsimp only at h
    split at h
    · rename_i hop hlog
      cases h
      rcases takeOp_eq_some hop with ⟨hops, rfl⟩
      exact OpStep.logWrite hops hlog
    · cases h
  | endOp pid =>
    unfold opExec at h
    dsimp only at h
    split at h
    · rename_i hop hlog
      cases h
      rcases takeOp_eq_some hop with ⟨hops, rfl⟩
      exact OpStep.endOp hops hlog
    · cases h
  | clear =>
    rcases Option.ite_none_right_eq_some.mp h with ⟨hcommit, heq⟩
    cases heq
    exact OpStep.clear hcommit
  | endCommit =>
    rcases Option.ite_none_right_eq_some.mp h with ⟨⟨hcommit, hlh⟩, heq⟩
    cases heq
    exact OpStep.endCommit hcommit hlh

instance (s : OpState) : (l : OpLabel) -> Decidable (Respects s l)
  | .logWrite pid b => inferInstanceAs
      (Decidable (forall op, op ∈ s.ops -> op.pid = pid ->
        (insert b op.touched).card <= MAXOPBLOCKS))
  | .beginOp _ | .endOp _ | .clear | .endCommit => .isTrue trivial

/-- Three operations that have each logged ten blocks: `46..55`, `56..65` and
`66..75`, the first data blocks of the default image. -/
def fullLog : OpState :=
  { log := { start := 2, outstanding := 3, committing := false, dev := ROOTDEV,
             lh := List.range' 46 30 }
    ops := [{ pid := 3, touched := (List.range' 66 10).toFinset },
            { pid := 2, touched := (List.range' 56 10).toFinset },
            { pid := 1, touched := (List.range' 46 10).toFinset }]
    logged := (List.range' 46 30).toFinset }

def filling : List OpLabel :=
  [.beginOp 1, .beginOp 2, .beginOp 3] ++ (List.range' 46 10).map (.logWrite 1) ++
    (List.range' 56 10).map (.logWrite 2) ++ (List.range' 66 10).map (.logWrite 3)

theorem respects_fullLog : (opSystem 2 ROOTDEV).ReachableVia Respects fullLog := by
  have hinit : (opSystem 2 ROOTDEV).ReachableVia Respects (OpState.boot 2 ROOTDEV) :=
    Lib.System.ReachableVia.init rfl
  have hrun : Lib.System.run opExec Respects (OpState.boot 2 ROOTDEV) filling = some fullLog := by
    decide +kernel
  exact hinit.run (fun _ _ _ => opExec_step) hrun

theorem full_log_refuses_absorption :
    (opSystem 2 ROOTDEV).ReachableVia Respects fullLog ∧
      Respects fullLog (.logWrite 1 46) ∧
      logWrite fullLog.log 46 = .error .tooBigATransaction := by
  refine ⟨respects_fullLog, ?_, by decide⟩
  intro op hop hpid
  revert op
  decide

theorem log_reservation_sound_full :
    fullLog.log.lh.length <= LOGBLOCKS ∧ fullLog.log.lh.Nodup ∧
      (forall b, b ∈ fullLog.logged -> b ∈ fullLog.log.lh) ∧
      (forall op, op ∈ fullLog.ops -> forall b, Respects fullLog (.logWrite op.pid b) ->
        ((exists r, logWrite fullLog.log b = .ok r) <-> ¬ RelogsWhenFull fullLog b)) :=
  log_reservation_sound respects_fullLog

end Log
end Xv6
