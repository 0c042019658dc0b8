import Xv6.Log.Crash

/-!
# Readers see the latest write

The cache and the log together behave like one array of blocks.  `writes` lists every
block passed to `bwrite` or `log_write`, by the users of the cache and by `log.c` itself;
a reader of a block sees its last entry there.
-/

namespace Xv6
namespace Log

open Lib Function
open Bio

structure Io where
  sys : Sys
  writes : List (Nat × Block)

variable {k pid start : Nat} {t t' : Io} {m : Mem} {op : OpState} {rest : List Micro}
variable {d0 : Nat -> Block} {log : LogState}

def Io.contents (d0 : Nat -> Block) (t : Io) : Nat -> Block :=
  Store.writeAll d0 t.writes

def Micro.target (log : LogState) : Micro -> Option Nat
  | .writeLog tail => some (log.start + tail + 1)
  | .writeHead => some log.start
  | .install _ tail => some (log.lh.getD tail 0)
  | .clear => none

def written (s : Sys) (l : Label) (s' : Sys) : List (Nat × Block) :=
  match l with
  | .logWrite u v => [(u.blockno, v)]
  | .micro => ((s.prog.head?.bind (Micro.target s.op.log)).map (fun n => (n, s'.disk n))).toList
  | _ => []

inductive IoLabel where
  | run (l : Label)
  | bwrite (u : User) (v : Block)

inductive IoStep : Io -> IoLabel -> Io -> Prop where
  | run {t : Io} {l : Label} {s' : Sys} :
      l ≠ .crash ->
      Step t.sys l s' ->
      IoStep t (.run l) { sys := s', writes := t.writes ++ written t.sys l s' }
  | bwrite {t : Io} {u : User} {v : Block} {m : Mem} :
      u ∈ t.sys.users ->
      u.blockno ∈ homes t.sys.op.log.start ->
      Log.bwrite (setData t.sys.mem u.buf v) u.pid u.buf = .ok m ->
      IoStep t (.bwrite u v)
        { sys := { t.sys with disk := m.disk, cache := m.cache }
          writes := t.writes ++ [(u.blockno, v)] }

structure Started (start : Nat) (d0 : Nat -> Block) (s : Sys) : Prop where
  boot_eq : s.boot = .up
  prog_eq : s.prog = []
  start_eq : s.op.log.start = start
  dev_eq : s.op.log.dev = ROOTDEV
  lh_eq : s.op.log.lh = []
  committing_eq : s.op.log.committing = false
  outstanding_eq : s.op.log.outstanding = s.op.ops.length
  served : Served s [] d0

def ioSystem (start : Nat) (d0 : Nat -> Block) : System Io IoLabel :=
  { init := fun t => Started start d0 t.sys ∧ t.writes = []
    step := IoStep }

/-- No block of a running commit is written directly. -/
def Careful (t : Io) : IoLabel -> Prop
  | .bwrite u _ => t.sys.op.log.committing = true -> u.blockno ∉ t.sys.op.log.lh
  | _ => True

/-!
## The invariant
-/

inductive Commit (s : Sys) (view : Nat -> Block) : Prop where
  | idle : s.prog = [] -> Commit s view
  | logging (k : Nat) :
      s.op.log.committing = true -> k <= s.op.log.lh.length ->
      s.prog = (List.range' k (s.op.log.lh.length - k)).map Micro.writeLog ++
        .writeHead :: installProg false s.op.log.lh.length ->
      (forall j (hj : j < s.op.log.lh.length), j < k ->
        view (s.op.log.start + j + 1) = view s.op.log.lh[j]) ->
      Commit s view
  | installing (k : Nat) :
      s.op.log.committing = true -> k <= s.op.log.lh.length ->
      s.prog = (List.range' k (s.op.log.lh.length - k)).map (Micro.install false) ++
        [.clear, .writeHead] ->
      (forall j (hj : j < s.op.log.lh.length), k <= j ->
        view (s.op.log.start + j + 1) = view s.op.log.lh[j]) ->
      Commit s view
  | clearing :
      s.op.log.committing = true -> s.prog = [.writeHead] -> s.op.log.lh = [] ->
      Commit s view

structure Coherent (start : Nat) (s : Sys) (view : Nat -> Block) : Prop where
  boot_eq : s.boot = .up
  start_eq : s.op.log.start = start
  dev_eq : s.op.log.dev = ROOTDEV
  lh_le : s.op.log.lh.length <= LOGBLOCKS
  lh_home : forall n, n ∈ s.op.log.lh -> n ∈ homes start
  outstanding_eq : s.op.log.outstanding = s.op.ops.length
  quiet : s.op.log.committing = true -> s.op.ops = []
  served : Served s s.pins view
  commit : Commit s view

section

variable {start : Nat} {s : Sys} {view : Nat -> Block}

theorem Coherent.counted (h : Coherent start s view) : Counted s.op :=
  ⟨h.outstanding_eq, h.quiet⟩

theorem Started.coherent (h : Started start d0 s) : Coherent start s d0 := by
  refine
    { boot_eq := h.boot_eq
      start_eq := h.start_eq
      dev_eq := h.dev_eq
      lh_le := by rw [h.lh_eq]; exact Nat.zero_le _
      lh_home := fun n hn => by rw [h.lh_eq] at hn; cases hn
      outstanding_eq := h.outstanding_eq
      quiet := fun hc => by rw [h.committing_eq] at hc; cases hc
      served := ?_
      commit := .idle h.prog_eq }
  rw [pins_of_prog_nil h.boot_eq h.prog_eq, h.lh_eq]
  exact h.served

section

variable (h : Coherent start s view)
include h

theorem Coherent.cache {d : Nat -> Block} {c : Bcache} {users : List User} {view' : Nat -> Block}
    (hserved : Served { s with disk := d, cache := c, users := users } s.pins view')
    (hsame : s.op.log.committing = true -> forall n, n ∈ s.op.log.lh ->
      view' n = view n)
    (hslots : forall i, i < LOGBLOCKS -> view' (start + i + 1) = view (start + i + 1)) :
    Coherent start { s with disk := d, cache := c, users := users } view' := by
  refine { h with served := hserved, commit := ?_ }
  have hle := h.lh_le
  have hslot : s.op.log.committing = true -> forall j (hj : j < s.op.log.lh.length),
      view (s.op.log.start + j + 1) = view s.op.log.lh[j] ->
      view' (s.op.log.start + j + 1) = view' s.op.log.lh[j] := by
    intro hcommit j hj heq
    rw [hsame hcommit _ (List.getElem_mem hj), ← heq, h.start_eq]
    exact hslots j (by omega)
  cases h.commit with
  | idle hprog => exact .idle hprog
  | logging k hcommit hk hprog hdone =>
    exact .logging k hcommit hk hprog
      (fun j hj hlt => hslot hcommit j hj (hdone j hj hlt))
  | installing k hcommit hk hprog hleft =>
    exact .installing k hcommit hk hprog
      (fun j hj hge => hslot hcommit j hj (hleft j hj hge))
  | clearing hcommit hprog hnil => exact .clearing hcommit hprog hnil

theorem Coherent.prog_nil (hcommit : s.op.log.committing = false) :
    s.prog = [] := by
  cases h.commit with
  | idle hprog => exact hprog
  | logging k hc | installing k hc | clearing hc =>
    rw [hcommit] at hc
    cases hc

theorem Coherent.ops (hprog : s.prog = [])
    (runner : Nat) {prog : List Micro} (hstart : op.log.start = s.op.log.start)
    (hdev : op.log.dev = s.op.log.dev) (hlh : op.log.lh = s.op.log.lh) (hcounted : Counted op)
    (hnext : prog = [] ∨ op.log.committing = true ∧ prog = commitProg op.log.lh.length) :
    Coherent start { s with op := op, runner := runner, prog := prog } view := by
  have hserved := h.served
  rw [pins_of_prog_nil h.boot_eq hprog, ← hlh] at hserved
  have hprog' : prog = [] ∨ op.log.committing = true ∧
      prog = (List.range' 0 op.log.lh.length).map Micro.writeLog ++
        .writeHead :: installProg false op.log.lh.length := by
    rcases hnext with hnil | ⟨hcommit, heq⟩
    · exact Or.inl hnil
    · unfold commitProg at heq
      split at heq
      · rw [List.range_eq_range'] at heq
        exact Or.inr ⟨hcommit, heq⟩
      · exact Or.inl heq
  have hpins : Sys.pins { s with op := op, runner := runner, prog := prog } = op.log.lh := by
    rcases hprog' with hnil | ⟨_, heq⟩
    · exact pins_of_prog_nil (by exact h.boot_eq) (by exact hnil)
    · unfold Sys.pins
      simp only [h.boot_eq, heq]
      cases op.log.lh.length <;> rfl
  refine
    { boot_eq := h.boot_eq
      start_eq := hstart.trans h.start_eq
      dev_eq := hdev.trans h.dev_eq
      lh_le := by rw [hlh]; exact h.lh_le
      lh_home := by rw [hlh]; exact h.lh_home
      outstanding_eq := hcounted.outstanding_eq
      quiet := hcounted.quiet
      served := by rw [hpins]; exact { users_key := hserved.users_key, ok := hserved.ok }
      commit := ?_ }
  rcases hprog' with hnil | ⟨hcommit, heq⟩
  · exact .idle hnil
  · exact .logging 0 hcommit (Nat.zero_le _) heq (fun j _ hlt => absurd hlt (Nat.not_lt_zero j))

theorem Coherent.beginOp
    (hstep : OpStep s.op (.beginOp pid) op) : Coherent start { s with op := op } view := by
  have hcounted := h.counted.step hstep
  cases hstep with
  | beginOp _ hbegin =>
    rcases beginOp_eq_some hbegin with ⟨hcommit, _, rfl⟩
    have hprog := h.prog_nil hcommit
    exact h.ops hprog s.runner (by rfl) (by rfl) (by rfl) hcounted (Or.inl hprog)

theorem Coherent.endOp (hstep : OpStep s.op (.endOp pid) op) :
    Coherent start
      { s with
        op := op
        runner := pid
        prog := if op.log.committing then commitProg op.log.lh.length else s.prog } view := by
  have hcounted := h.counted.step hstep
  cases hstep with
  | @endOp left right o log last hops hend =>
    rcases endOp_eq_ok hend with ⟨hcommit, rfl, _⟩
    have hprog := h.prog_nil hcommit
    refine h.ops hprog o.pid (by rfl) (by rfl) (by rfl) hcounted ?_
    dsimp only
    split
    · rename_i hc
      exact Or.inr ⟨hc, rfl⟩
    · exact Or.inl hprog

theorem Coherent.endCommit (hprog : s.prog = [])
    (hstep : OpStep s.op .endCommit op) : Coherent start { s with op := op } view := by
  have hcounted := h.counted.step hstep
  cases hstep with
  | endCommit _ _ =>
    exact h.ops hprog s.runner (by rfl) (by rfl) (by rfl) hcounted (Or.inl hprog)

/-!
## Writes
-/

theorem Coherent.logWrite {u : User} {v : Block}
    {fresh : Bool} (hu : u ∈ s.users) (hlock : (s.cache.buf u.buf).lock = some u.pid)
    (hhome : u.blockno ∈ homes s.op.log.start)
    (hlog : Log.logWrite s.op.log u.blockno = .ok (log, fresh))
    (hstep : OpStep s.op (.logWrite u.pid u.blockno) op) :
    Coherent start
      { s with
        op := op
        cache := if fresh then bpin (setData s.mem u.buf v).cache u.buf
          else (setData s.mem u.buf v).cache
        pending := s.pending ++ [(u.blockno, v)] }
      (update view u.blockno v) := by
  rcases u with ⟨pid, i, n⟩
  have hcounted := h.counted.step hstep
  have hprog := h.prog_nil (h.counted.not_committing hstep)
  cases hstep with
  | @logWrite left right o b log2 fresh2 hops hlog' =>
    rw [hlog] at hlog'
    cases hlog'
    have hserved := h.served
    rw [pins_of_prog_nil h.boot_eq hprog] at hserved
    have hserved' := hserved.logWrite (v := v) hu hlock hlog
      { log := log
        ops := left ++ { o with touched := insert n o.touched } :: right
        logged := insert n s.op.logged } (s.pending ++ [(n, v)])
    rcases logWrite_fields hlog with ⟨hst, hdv, _, _, hle, hmem⟩
    refine ⟨h.boot_eq, hst.trans h.start_eq, hdv.trans h.dev_eq, hle, ?_,
      hcounted.outstanding_eq, hcounted.quiet, ?_, .idle hprog⟩
    · intro k hk
      rcases (hmem k).mp hk with hk | rfl
      · exact h.lh_home k hk
      · exact h.start_eq ▸ hhome
    · rw [pins_of_prog_nil (by exact h.boot_eq) (by exact hprog)]
      exact hserved'

theorem Coherent.bwrite {u : User} {v : Block}
    (hu : u ∈ s.users) (hhome : u.blockno ∈ homes s.op.log.start)
    (hcareful : s.op.log.committing = true -> u.blockno ∉ s.op.log.lh)
    (hwrite : Log.bwrite (setData s.mem u.buf v) u.pid u.buf = .ok m) :
    Coherent start { s with disk := m.disk, cache := m.cache }
      (update view u.blockno v) := by
  have hlock : (s.cache.buf u.buf).lock = some u.pid := by
    by_contra hne
    unfold Log.bwrite setData at hwrite
    dsimp only at hwrite
    rw [set_buf_self] at hwrite
    rw [if_neg (by exact hne)] at hwrite
    cases hwrite
  have hhold := h.served.holds hu hlock
  have hok := (bwrite_setData_ok h.served.ok hhold hwrite).left
  have hkeys := bwrite_setData_keepsKeys hhold (s.users.map User.blockno) hwrite
  rw [h.start_eq] at hhome
  apply h.cache (h.served.keeps hkeys hok)
  · intro hcommit n hn
    apply update_of_ne
    intro heq
    rw [heq] at hn
    exact hcareful hcommit hn
  · intro i hi
    exact update_of_ne (homes_ne_slot hhome hi).symm ..

/-!
## Steps of a commit
-/

theorem Coherent.micro {u : Micro}
    {lh : List Nat} {view' : Nat -> Block} (hle : lh.length <= LOGBLOCKS)
    (hhome : forall n, n ∈ lh -> n ∈ homes start)
    (hkeys : KeepsKeys s.mem m (s.users.map User.blockno)) (hok : Ok m (s.users.map User.blockno)
      (s.micro u rest { s.op.log with lh := lh } m).pins view')
    (hcommit : Commit (s.micro u rest { s.op.log with lh := lh } m) view') :
    Coherent start (s.micro u rest { s.op.log with lh := lh } m) view' :=
  { h with
    lh_le := hle
    lh_home := hhome
    served :=
      { users_key := (h.served.keeps hkeys hok).users_key
        ok := hok }
    commit := hcommit }

end

theorem pins_logging (hboot : s.boot = .up)
    (hprog : s.prog = (List.range' k (s.op.log.lh.length - k)).map Micro.writeLog ++
      .writeHead :: installProg false s.op.log.lh.length) :
    s.pins = s.op.log.lh := by
  unfold Sys.pins
  rw [hboot, hprog]
  cases List.range' k (s.op.log.lh.length - k) <;> rfl

section

variable (h : Coherent start s view)
include h

theorem Coherent.writeLog (hcommit : s.op.log.committing = true) (hk : k < s.op.log.lh.length)
    (hprog : s.prog = .writeLog k :: rest)
    (hrest : rest = (List.range' (k + 1) (s.op.log.lh.length - (k + 1))).map
      Micro.writeLog ++ .writeHead :: installProg false s.op.log.lh.length)
    (hdone : forall j (hj : j < s.op.log.lh.length), j < k ->
      view (s.op.log.start + j + 1) = view s.op.log.lh[j])
    (hbody : writeLogBody s.runner s.op.log s.mem k = .ok m) :
    Coherent start (s.micro (.writeLog k) rest s.op.log m)
      (update view (s.op.log.start + k + 1) (m.disk (s.op.log.start + k + 1))) := by
  have hstart := h.start_eq
  subst hstart
  have hle := h.lh_le
  have hkl : k < LOGBLOCKS := by omega
  have hmem := getD_mem hk
  have hhome := h.lh_home _ hmem.right
  have hserved := h.served
  rw [pins_logging h.boot_eq (by rw [map_range'_cons _ hk, hprog, hrest]; rfl)] at hserved
  rcases writeLogBody_ok hserved.ok h.dev_eq (homes_ne_slot hhome hkl) hbody with
    ⟨hok, hdisk, hkeys⟩
  have hnew : m.disk (s.op.log.start + k + 1) = view (s.op.log.lh.getD k 0) := by
    rw [hdisk, update_self]
  rw [hnew]
  refine h.micro hle h.lh_home hkeys ?_ ?_
  · rw [pins_logging (k := k + 1) (by exact h.boot_eq) (by exact hrest)]
    exact hok
  · refine .logging (k + 1) hcommit hk hrest (fun j hj hlt => ?_)
    change j < s.op.log.lh.length at hj
    change update view _ _ (s.op.log.start + j + 1) =
      update view _ _ s.op.log.lh[j]
    rw [update_of_ne (homes_ne_slot (h.lh_home _ (List.getElem_mem hj)) hkl)]
    by_cases hjk : j = k
    · subst hjk
      rw [update_self, hmem.left]
    · rw [update_of_ne (by omega)]
      exact hdone j hj (by omega)

theorem Coherent.writeHead (hpins : s.pins = s.op.log.lh)
    (hpins' : (s.micro .writeHead rest s.op.log m).pins = s.op.log.lh)
    (hnext : forall view' : Nat -> Block,
      (forall n, n ≠ s.op.log.start -> view' n = view n) ->
      Commit (s.micro .writeHead rest s.op.log m) view')
    (hwrite : Log.writeHead s.runner s.op.log s.mem = .ok m) :
    Coherent start (s.micro .writeHead rest s.op.log m)
      (update view s.op.log.start (m.disk s.op.log.start)) := by
  have hserved := h.served
  rw [hpins] at hserved
  rcases writeHead_ok hserved.ok h.dev_eq hwrite with ⟨hok, hdisk, hkeys⟩
  have hnew : m.disk s.op.log.start = putHead (view s.op.log.start) s.op.log.lh := by
    rw [hdisk, update_self]
  rw [hnew]
  refine h.micro h.lh_le h.lh_home hkeys ?_ (hnext _ (fun n hn => update_of_ne hn ..))
  rw [hpins']
  exact hok

theorem Coherent.install (hcommit : s.op.log.committing = true) (hk : k < s.op.log.lh.length)
    (hprog : s.prog = .install false k :: rest)
    (hrest : rest = (List.range' (k + 1) (s.op.log.lh.length - (k + 1))).map
      (Micro.install false) ++ [.clear, .writeHead])
    (hleft : forall j (hj : j < s.op.log.lh.length), k <= j ->
      view (s.op.log.start + j + 1) = view s.op.log.lh[j])
    (hbody : installBody s.runner false s.op.log s.mem k = .ok m) :
    m.disk (s.op.log.lh.getD k 0) = view (s.op.log.lh.getD k 0) ∧
      Coherent start (s.micro (.install false k) rest s.op.log m) view := by
  have hstart := h.start_eq
  subst hstart
  have hle := h.lh_le
  have hkl : k < LOGBLOCKS := by omega
  have hmem := getD_mem hk
  have hhome := h.lh_home _ hmem.right
  have hserved := h.served
  rw [pins_installing h.boot_eq (Nat.le_of_lt hk)
    (by rw [map_range'_cons _ hk, hprog, hrest]; rfl), List.drop_eq_getElem_cons hk,
    ← hmem.left] at hserved
  have hslot : view (s.op.log.start + k + 1) = view (s.op.log.lh.getD k 0) := by
    rw [hmem.left]
    exact hleft k hk (Nat.le_refl k)
  rcases installBody_commit_ok hserved.ok h.dev_eq (homes_ne_slot hhome hkl) hslot hbody with
    ⟨hok, hdisk, hkeys⟩
  refine ⟨by rw [hdisk, update_self], h.micro hle h.lh_home hkeys ?_ ?_⟩
  · rw [pins_installing (s := s.micro (.install false k) rest s.op.log m) h.boot_eq hk
      (by exact hrest)]
    exact hok
  · exact .installing (k + 1) hcommit hk hrest (fun j hj hge => hleft j hj (by omega))

theorem Coherent.clear (hcommit : s.op.log.committing = true)
    (hprog : s.prog = [.clear, .writeHead]) :
    Coherent start (s.micro .clear [.writeHead] { s.op.log with lh := [] } s.mem) view := by
  have hserved := h.served
  have hpins : s.pins = [] := by
    unfold Sys.pins
    rw [h.boot_eq, hprog]
  rw [hpins] at hserved
  refine h.micro (Nat.zero_le _) (fun n hn => by cases hn) (fun _ _ _ _ hkey => hkey) ?_
    (.clearing hcommit rfl rfl)
  have hpins' : (s.micro .clear [.writeHead] { s.op.log with lh := [] } s.mem).pins = [] := by
    unfold Sys.pins
    simp only [Sys.micro, h.boot_eq]
  rw [hpins']
  exact hserved.ok

theorem Coherent.install_disk (hprog : s.prog = .install false k :: rest)
    (hmicro : microStep s.runner (s.op.log, s.mem) (.install false k) = .ok (log, m)) :
    m.disk (s.op.log.lh.getD k 0) = view (s.op.log.lh.getD k 0) := by
  cases h.commit with
  | idle hnil =>
    rw [hnil] at hprog
    cases hprog
  | logging k' _ hk hlist _ =>
    rcases cons_range hk (hprog.symm.trans hlist) with ⟨_, heq, _⟩ | ⟨_, heq, _⟩ <;> cases heq
  | installing k' hcommit hk hlist hleft =>
    rcases cons_range hk (hprog.symm.trans hlist) with ⟨hlt, heq, rfl⟩ | ⟨_, heq, _⟩
    · cases heq
      rcases map_eq_ok.mp hmicro with ⟨m', hbody, hm⟩
      cases hm
      exact (h.install hcommit hlt hprog rfl hleft hbody).left
    · cases heq
  | clearing _ hlist _ =>
    rw [hprog] at hlist
    cases hlist

theorem Coherent.step_micro {u : Micro} (hprog : s.prog = u :: rest)
    (hmicro : microStep s.runner (s.op.log, s.mem) u = .ok (log, m)) :
    Coherent start (s.micro u rest log m)
      (Store.writeAll view ((u.target s.op.log).map (fun n => (n, m.disk n))).toList) := by
  cases h.commit with
  | idle hnil =>
    rw [hnil] at hprog
    cases hprog
  | logging k hcommit hk hlist hdone =>
    rcases cons_range hk (hprog.symm.trans hlist) with ⟨hlt, rfl, rfl⟩ | ⟨rfl, rfl, rfl⟩
    · rcases map_eq_ok.mp hmicro with ⟨m', hbody, hm⟩
      cases hm
      exact h.writeLog hcommit hlt hprog rfl hdone hbody
    · rcases map_eq_ok.mp hmicro with ⟨m', hbody, hm⟩
      cases hm
      have hinstall : installProg false s.op.log.lh.length =
          (List.range' 0 (s.op.log.lh.length - 0)).map (Micro.install false) ++
            [.clear, .writeHead] := by
        rw [installProg, List.range_eq_range', Nat.sub_zero]
      have hpins := pins_of_cons h.boot_eq hprog (Or.inr rfl)
      have hpins' : (s.micro .writeHead (installProg false s.op.log.lh.length) s.op.log m).pins =
          s.op.log.lh := pins_installing (by exact h.boot_eq) (Nat.zero_le _) (by exact hinstall)
      refine h.writeHead hpins hpins' (fun view' hsame => ?_) hbody
      refine .installing 0 hcommit (Nat.zero_le _) hinstall (fun j hj _ => ?_)
      change j < s.op.log.lh.length at hj
      have hhome := h.lh_home _ (List.getElem_mem hj)
      rw [← h.start_eq] at hhome
      change view' (s.op.log.start + j + 1) = view' s.op.log.lh[j]
      rw [hsame _ (by omega), hsame _ (homes_ne_start hhome)]
      exact hdone j hj (by omega)
  | installing k hcommit hk hlist hleft =>
    rcases cons_range hk (hprog.symm.trans hlist) with ⟨hlt, rfl, rfl⟩ | ⟨rfl, rfl, rfl⟩
    · rcases map_eq_ok.mp hmicro with ⟨m', hbody, hm⟩
      cases hm
      rcases h.install hcommit hlt hprog rfl hleft hbody with ⟨hdisk, hnext⟩
      change Coherent start _ (update view _ _)
      dsimp only
      rw [hdisk, update_eq_self]
      exact hnext
    · cases hmicro
      exact h.clear hcommit hprog
  | clearing hcommit hlist hnil =>
    rw [hprog] at hlist
    cases hlist
    rcases map_eq_ok.mp hmicro with ⟨m', hbody, hm⟩
    cases hm
    have hpins := pins_of_cons h.boot_eq hprog (Or.inr rfl)
    have hpins' : (s.micro .writeHead [] s.op.log m).pins = s.op.log.lh :=
      pins_of_prog_nil (by exact h.boot_eq) rfl
    exact h.writeHead hpins hpins' (fun _ _ => .idle rfl) hbody

end

end

theorem coherent_step {l : IoLabel}
    (h : Coherent start t.sys (t.contents d0)) (hcareful : Careful t l)
    (hstep : IoStep t l t') : Coherent start t'.sys (t'.contents d0) := by
  cases hstep with
  | bwrite hu hhome hwrite =>
    unfold Io.contents
    rw [Store.writeAll_concat]
    exact h.bwrite hu hhome hcareful hwrite
  | run hcrash hrun =>
    unfold Io.contents
    rw [Store.writeAll_append]
    cases hrun with
    | beginOp _ hop => exact h.beginOp hop
    | bget _ hget => exact h.cache (h.served.bget _ hget) (fun _ _ _ => rfl) (fun _ _ => rfl)
    | lock _ hu hacq =>
      exact h.cache (h.served.lock hu hacq) (fun _ _ _ => rfl) (fun _ _ => rfl)
    | logWrite _ hu hlock hhome hlog hop => exact h.logWrite hu hlock hhome hlog hop
    | brelse _ hu hrel =>
      exact h.cache (h.served.brelse hu hrel) (fun _ _ _ => rfl) (fun _ _ => rfl)
    | endOp _ hop => exact h.endOp hop
    | micro hprog hmicro =>
      have hnext := h.step_micro hprog hmicro
      unfold written
      rw [hprog]
      exact hnext
    | endCommit _ hprog hop => exact h.endCommit hprog hop
    | crash => exact absurd rfl hcrash
    | readHead hboot _ | recovered hboot _ =>
      rw [h.boot_eq] at hboot
      cases hboot

theorem coherent_reachable (h : (ioSystem start d0).ReachableVia Careful t) :
    Coherent start t.sys (t.contents d0) := by
  apply h.invariant
  · intro t hinit
    unfold Io.contents
    rw [hinit.right]
    exact hinit.left.coherent
  · intro t l t' hinv hcareful hstep
    exact coherent_step hinv hcareful hstep

theorem reads_latest_write {start : Nat} {d0 : Nat -> Block} {t : Io}
    (h : (ioSystem start d0).ReachableVia Careful t) :
    (forall pid n m i, bread t.sys.mem pid ROOTDEV n = .ok (m, i) ->
      (m.cache.buf i).data = t.contents d0 n) ∧
    (forall u c, u ∈ t.sys.users -> acquire t.sys.cache u.pid u.buf = some c ->
      ((fill c t.sys.disk u.buf).buf u.buf).data = t.contents d0 u.blockno) ∧
    (forall k rest log m, t.sys.prog = .install false k :: rest ->
      microStep t.sys.runner (t.sys.op.log, t.sys.mem) (.install false k) = .ok (log, m) ->
      m.disk (t.sys.op.log.lh.getD k 0) = t.contents d0 (t.sys.op.log.lh.getD k 0)) := by
  have hinv := coherent_reachable h
  refine ⟨?_, ?_, ?_⟩
  · intro pid n m i hread
    exact bread_data hinv.served.ok hread
  · intro u c hu hacq
    have hkey := hinv.served.users_key u hu
    have hhold := lock_holds (m := t.sys.mem) hkey.left hkey.right hacq
    exact (hinv.served.lock hu hacq).ok.clean u.buf u.blockno hhold.lt hhold.key hhold.valid
  · intro k rest log m hprog hmicro
    exact hinv.install_disk hprog hmicro

/-!
## Running the system

The steps as a function, to follow a given run.
-/

def Io.exec (t : Io) : IoLabel -> Option Io
  | .run .crash => none
  | .run l =>
    (t.sys.exec l).map (fun s' => { sys := s', writes := t.writes ++ written t.sys l s' })
  | .bwrite u v =>
    if u ∈ t.sys.users ∧ u.blockno ∈ homes t.sys.op.log.start then
      match Log.bwrite (setData t.sys.mem u.buf v) u.pid u.buf with
      | .ok m =>
        some
          { sys := { t.sys with disk := m.disk, cache := m.cache }
            writes := t.writes ++ [(u.blockno, v)] }
      | .error _ => none
    else
      none

theorem Io.exec_step {l : IoLabel} (h : t.exec l = some t') : IoStep t l t' := by
  cases l with
  | run l =>
    cases l with
    | crash => cases h
    | _ =>
      rcases Option.map_eq_some_iff.mp h with ⟨s', hs, rfl⟩
      exact IoStep.run nofun (Sys.exec_step hs)
  | bwrite u v =>
    simp only [Io.exec] at h
    split at h
    · rename_i hcond
      split at h
      · rename_i hwrite
        cases h
        exact IoStep.bwrite hcond.left hcond.right hwrite
      · cases h
    · cases h

instance (t : Io) : (l : IoLabel) -> Decidable (Careful t l)
  | .bwrite u _ => inferInstanceAs
      (Decidable (t.sys.op.log.committing = true -> u.blockno ∉ t.sys.op.log.lh))
  | .run _ => .isTrue trivial

def freshSys : Sys :=
  { op := OpState.boot 2 ROOTDEV
    disk := fun _ _ => 0
    cache := binit
    users := []
    runner := 0
    prog := []
    boot := .up
    pending := []
    history := [] }

theorem started_freshSys : Started 2 (fun _ _ => 0) freshSys :=
  { boot_eq := rfl
    prog_eq := rfl
    start_eq := rfl
    dev_eq := rfl
    lh_eq := rfl
    committing_eq := rfl
    outstanding_eq := rfl
    served := { users_key := fun _ hu => (by cases hu), ok := ok_binit _ } }

def logged : List Label :=
  [.beginOp 1, .bget 1 46, .lock { pid := 1, buf := 0, blockno := 46 },
    .logWrite { pid := 1, buf := 0, blockno := 46 } (fun _ => 1),
    .brelse { pid := 1, buf := 0, blockno := 46 }, .endOp 1] ++ List.replicate 5 .micro

def readInto (buf n : Nat) : List Label :=
  [.bget 2 n, .lock { pid := 2, buf := buf, blockno := n },
    .brelse { pid := 2, buf := buf, blockno := n }]

/-- Process 2 reads blocks until block 46 has lost its buffer, and process 3 asks for it. -/
def evicted : List Label :=
  logged ++ (List.range 27).flatMap (fun k => readInto (k + 3) (k + 100)) ++ readInto 1 127 ++
    readInto 0 128 ++ [.bget 3 46]

theorem reads_latest_write_evicted : exists t t' : Io,
    (ioSystem 2 (fun _ _ => 0)).ReachableVia Careful t ∧
    (ioSystem 2 (fun _ _ => 0)).ReachableVia Careful t' ∧
    (exists rest log m, t.sys.prog = .install false 0 :: rest ∧
      microStep t.sys.runner (t.sys.op.log, t.sys.mem) (.install false 0) = .ok (log, m) ∧
      m.disk 46 = t.contents (fun _ _ => 0) 46) ∧
    (exists u c, u ∈ t'.sys.users ∧ u.blockno = 46 ∧ (t'.sys.cache.buf u.buf).valid = false ∧
      acquire t'.sys.cache u.pid u.buf = some c ∧
      ((fill c t'.sys.disk u.buf).buf u.buf).data = t'.contents (fun _ _ => 0) 46) ∧
    (exists m i, bread t'.sys.mem 4 ROOTDEV 46 = .ok (m, i) ∧
      (m.cache.buf i).data = t'.contents (fun _ _ => 0) 46) ∧
    t'.contents (fun _ _ => 0) 46 0 = 1 := by
  have hinstall : (System.run Io.exec Careful { sys := freshSys, writes := [] }
      ((logged.take 8).map IoLabel.run)).any (fun t =>
        passes (microStep t.sys.runner (t.sys.op.log, t.sys.mem) (.install false 0)) fun _ =>
          decide (t.sys.prog = .install false 0 :: t.sys.prog.tail ∧ t.sys.op.log.lh = [46])) =
      true := by
    decide +kernel
  have hread : (System.run Io.exec Careful { sys := freshSys, writes := [] }
      (evicted.map IoLabel.run)).any (fun t =>
        passes (bread t.sys.mem 4 ROOTDEV 46) fun _ =>
          decide ({ pid := 3, buf := 2, blockno := 46 } ∈ t.sys.users ∧
            (t.sys.cache.buf 2).valid = false ∧ (acquire t.sys.cache 3 2).isSome = true ∧
            t.contents (fun _ _ => 0) 46 0 = 1)) = true := by
    decide +kernel
  have hstart : (ioSystem 2 (fun _ _ => 0)).ReachableVia Careful
      { sys := freshSys, writes := [] } := .init ⟨started_freshSys, rfl⟩
  obtain ⟨t, hreach, hinstall⟩ := hstart.run_any (fun _ _ _ => Io.exec_step) hinstall
  obtain ⟨⟨log, m⟩, hmicro, hinstall⟩ := passes_eq_true.mp hinstall
  rcases of_decide_eq_true hinstall with ⟨hprog, hlh⟩
  have hdisk := (reads_latest_write hreach).2.2 0 _ log m hprog hmicro
  rw [hlh] at hdisk
  obtain ⟨t', hreach', hread⟩ := hstart.run_any (fun _ _ _ => Io.exec_step) hread
  obtain ⟨⟨m', i⟩, hbread, hread⟩ := passes_eq_true.mp hread
  rcases of_decide_eq_true hread with ⟨hu, hvalid, hacq, hone⟩
  obtain ⟨c, hacq⟩ := Option.isSome_iff_exists.mp hacq
  rcases reads_latest_write hreach' with ⟨hbreads, hlocks, _⟩
  exact ⟨t, t', hreach, hreach', ⟨_, log, m, hprog, hmicro, hdisk⟩,
    ⟨_, c, hu, rfl, hvalid, hacq, hlocks _ c hu hacq⟩, ⟨m', i, hbread, hbreads 4 46 m' i hbread⟩,
    hone⟩

/-- Process 1 logs block 46; while the commit has copied it to the log and not yet
installed it, process 2 writes the block directly. -/
def directWrite : List IoLabel :=
  [.run (.beginOp 1), .run (.bget 1 46), .run (.lock { pid := 1, buf := 0, blockno := 46 }),
    .run (.logWrite { pid := 1, buf := 0, blockno := 46 } (fun _ => 1)),
    .run (.brelse { pid := 1, buf := 0, blockno := 46 }), .run (.endOp 1), .run .micro,
    .run (.bget 2 46), .run (.lock { pid := 2, buf := 0, blockno := 46 }),
    .bwrite { pid := 2, buf := 0, blockno := 46 } (fun _ => 2),
    .run (.brelse { pid := 2, buf := 0, blockno := 46 }), .run .micro]

theorem install_restores_older : exists t rest log m,
    (ioSystem 2 (fun _ _ => 0)).Reachable t ∧ t.sys.prog = .install false 0 :: rest ∧
      t.sys.op.log.lh = [46] ∧
      microStep t.sys.runner (t.sys.op.log, t.sys.mem) (.install false 0) = .ok (log, m) ∧
      t.contents (fun _ _ => 0) 46 0 = 2 ∧ m.disk 46 0 = 1 := by
  have hcheck : (System.run Io.exec (fun _ _ => True) { sys := freshSys, writes := [] }
      directWrite).any (fun t => passes (microStep t.sys.runner (t.sys.op.log, t.sys.mem)
        (.install false 0)) fun r =>
          decide (t.sys.prog = .install false 0 :: t.sys.prog.tail ∧ t.sys.op.log.lh = [46] ∧
            t.contents (fun _ _ => 0) 46 0 = 2 ∧ r.2.disk 46 0 = 1)) = true := by
    decide +kernel
  have hstart : (ioSystem 2 (fun _ _ => 0)).Reachable { sys := freshSys, writes := [] } :=
    .init ⟨started_freshSys, rfl⟩
  obtain ⟨t, hreach, hcheck⟩ := hstart.run_any (fun _ _ _ => Io.exec_step) hcheck
  obtain ⟨⟨log, m⟩, hmicro, hcheck⟩ := passes_eq_true.mp hcheck
  rcases of_decide_eq_true hcheck with ⟨hprog, hlh, hnew, hold⟩
  exact ⟨t, _, log, m, hreach, hprog, hlh, hmicro, hnew, hold⟩

end Log
end Xv6
