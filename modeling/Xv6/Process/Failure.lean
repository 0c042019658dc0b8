import Xv6.Process.Bounds
import Xv6.Process.Image

/-!
# Calls that fail

`kfork` and `growproc` when memory runs out.  The size of the process may be any number here.
-/

namespace Xv6
namespace Process

open Lib Vm Function

variable {i j : Nat} {free : List Page} {s : Machine} {p : Proc} {x : Ram} {k : Kernel}

section

variable {s s' : Machine} {i : Nat}

/-!
## `freeproc` and `allocproc`
-/

theorem freeproc_image (hrun : s.freeproc i = .ok s') :
    exists x, Freeing s.ram x ∧
      s' = ((s.setRam x).setProc i (s.kernel.proc i).freed).setSlot i (s.slot i).freed := by
  unfold Machine.freeproc at hrun
  dsimp only at hrun
  rcases bind_eq_ok.mp hrun with ⟨x1, hfree, hrun⟩
  rcases bind_eq_ok.mp hrun with ⟨x2, htable, hrun⟩
  cases hrun
  refine ⟨x2, ?_, rfl⟩
  have hfirst : Freeing s.ram x1 := by
    split at hfree
    · exact freeing_kfree hfree
    · cases hfree
      exact Freeing.refl _
  split at htable
  · exact hfirst.trans (freeing_procFreepagetable htable)
  · cases htable
    exact hfirst

theorem freeproc_moves (hp : s.kernel.proc i = p) (hargv : p.argv = [])
    (htable : p.pagetable ≠ 0 -> p.sz <= TRAPFRAME ∧
      Space s.kernel.kmem s.kernel.trampoline p.trapframe p.pagetable (pages p.sz))
    (hgood : Good s.kernel.kmem (memUse s.kernel.kmem p)) :
    exists x, s.freeproc i = .ok (((s.setRam x).setProc i p.freed).setSlot i (s.slot i).freed) ∧
      Moves s.ram x (memUse s.kernel.kmem p) (fun _ => 0) := by
  rcases freeproc_spec hp hargv htable hgood with ⟨m', hrun, hcons⟩
  rw [← freeproc_forget] at hrun
  rcases map_eq_ok.mp hrun with ⟨s', hfree, hkernel⟩
  rcases freeproc_image hfree with ⟨x, hfreeing, heq⟩
  have hmem : x.kmem = m' := by
    rw [heq] at hkernel
    exact congrArg Kernel.kmem hkernel
  refine ⟨x, ?_, hfreeing.moves (by rw [hmem]; exact hcons)⟩
  rw [hfree, heq, hp]

structure Numbered (s s' : Machine) (j : Nat) (sl : Info) : Prop where
  slot : s'.slot = update s.slot j sl
  nextpid : s'.nextpid = s.nextpid + 1
  inodeRef : s'.inodeRef = s.inodeRef
  inodeLocked : s'.inodeLocked = s.inodeLocked
  outstanding : s'.outstanding = s.outstanding
  kstack : s'.kstack = s.kstack
  forkret : s'.forkret = s.forkret

theorem freeproc_numbered (hrun : (((s.allocpid i).setRam x).setProc i p).freeproc i = .ok s') :
    Freeing x s'.ram ∧ Numbered s s' i (s.slot i).freed := by
  rcases freeproc_image hrun with ⟨y, hfreeing, heq⟩
  subst heq
  refine ⟨hfreeing, ?_, rfl, rfl, rfl, rfl, rfl, rfl⟩
  funext j
  by_cases hj : j = i
  · subst hj
    simp [Machine.allocpid, Machine.setSlot, Machine.setProc, Machine.setRam, Info.freed]
  · simp [Machine.allocpid, Machine.setSlot, Machine.setProc, Machine.setRam, hj]

theorem allocproc_image {res : Option Nat} (hrun : s.allocproc = .ok (s', res)) :
    (forall q, q ∉ s.kernel.kmem.free -> q ∉ s'.kernel.kmem.free -> s'.data q = s.data q) ∧
      (res = none -> s' = s ∨ exists j, j < NPROC ∧ (s.kernel.proc j).state = .unused ∧
        Numbered s s' j (s.slot j).freed) ∧
      forall j, res = some j -> Numbered s s' j { s.slot j with
        pid := s.nextpid
        context := s.newContext j } := by
  unfold Machine.allocproc at hrun
  cases hfind : (List.range NPROC).find? (fun i => decide ((s.kernel.proc i).state = .unused)) with
  | none =>
    rw [hfind] at hrun
    cases hrun
    exact ⟨fun _ _ _ => rfl, fun _ => .inl rfl, fun j h => by cases h⟩
  | some i =>
    rcases find_range hfind with ⟨hi, hunused⟩
    replace hunused : (s.kernel.proc i).state = .unused := of_decide_eq_true hunused
    rw [hfind] at hrun
    dsimp only at hrun
    cases halloc : (s.allocpid i).ram.kalloc with
    | none =>
      rw [halloc] at hrun
      rcases bind_eq_ok.mp hrun with ⟨s1, hfree, hrun⟩
      cases hrun
      rcases freeproc_numbered (x := s.ram) hfree with ⟨hfreeing, hnumbered⟩
      exact ⟨fun q _ hq => hfreeing.data q hq, fun _ => .inr ⟨i, hi, hunused, hnumbered⟩,
        fun j h => by cases h⟩
    | some taken =>
      rcases taken with ⟨trapframe, x1⟩
      rw [halloc] at hrun
      dsimp only at hrun
      rcases bind_eq_ok.mp hrun with ⟨⟨x2, pagetable⟩, htable, hrun⟩
      rcases kalloc_head halloc with ⟨hmem, hsuffix⟩
      have hdata : forall q, q ∉ s.kernel.kmem.free -> q ∉ x2.kmem.free ->
          x2.data q = s.data q := by
        intro q hq hq2
        have hne : q ≠ trapframe := by
          rintro rfl
          exact hq hmem
        rw [procPagetable_data htable q (fun hin => hq (hsuffix.subset hin)) hq2,
          kalloc_data halloc, update_of_ne hne]
        rfl
      cases pagetable with
      | none =>
        rcases bind_eq_ok.mp hrun with ⟨s1, hfree, hrun⟩
        cases hrun
        rcases freeproc_numbered hfree with ⟨hfreeing, hnumbered⟩
        refine ⟨?_, fun _ => .inr ⟨i, hi, hunused, hnumbered⟩, fun j h => by cases h⟩
        intro q hq hq'
        exact (hfreeing.data q hq').trans (hdata q hq fun hin => hq' (hfreeing.free hin))
      | some pagetable =>
        cases hrun
        refine ⟨hdata, fun h => (by cases h), ?_⟩
        intro j hj
        cases hj
        refine ⟨?_, rfl, rfl, rfl, rfl, rfl, rfl⟩
        funext j
        by_cases hj : j = i
        · subst hj
          simp [Machine.allocpid, Machine.setSlot, Machine.setProc, Machine.setRam,
            Machine.newContext]
        · simp [Machine.allocpid, Machine.setSlot, Machine.setProc, Machine.setRam, hj]

theorem allocproc_moves (h : Spare s.kernel) :
    exists s' res, s.allocproc = .ok (s', res) ∧
      (res = none -> Unchanged s.kernel s'.kernel ∧ Moves s.ram s'.ram (fun _ => 0) (fun _ => 0) ∧
        (s' = s ∨ exists j, j < NPROC ∧ (s.kernel.proc j).state = .unused ∧
          Numbered s s' j (s.slot j).freed)) ∧
      forall j, res = some j -> Fresh s.kernel s'.kernel j 0 ∧
        Moves s.ram s'.ram (fun _ => 0) (memUse s'.kernel.kmem (s'.kernel.proc j)) ∧
        Numbered s s' j { s.slot j with
          pid := s.nextpid
          context := s.newContext j } := by
  rcases allocproc_spec h with ⟨k, res, hrun, hnone, hsome⟩
  rw [← allocproc_forget] at hrun
  rcases map_eq_ok.mp hrun with ⟨⟨s', res'⟩, hrun', heq⟩
  have hk : s'.kernel = k := congrArg Prod.fst heq
  have hres : res' = res := congrArg Prod.snd heq
  subst hk hres
  rcases allocproc_image hrun' with ⟨hdata, hslot, hnew⟩
  refine ⟨s', res', hrun', ?_, ?_⟩
  · intro hno
    exact ⟨hnone hno, Moves.of_data (hnone hno).2 hdata, hslot hno⟩
  · intro j hj
    exact ⟨hsome j hj, Moves.of_data (hsome j hj).conserve hdata, hnew j hj⟩

/-!
## `kfork`
-/

/-- A slot that `freeproc` has left, or that was never used; `kill` may have marked it. -/
structure Blank (sl : Info) : Prop where
  pid : sl.pid = 0
  chan : sl.chan = 0
  xstate : sl.xstate = 0
  name : sl.name 0 = 0

structure Holder (k : Kernel) (i : Nat) : Prop where
  active : (k.proc i).state ≠ .unused
  pagetable_ne : (k.proc i).pagetable ≠ 0
  trapframe_ne : (k.proc i).trapframe ≠ 0
  inner : Inner k.kmem (k.proc i).pagetable
  fixed : (leafAt k.kmem (k.proc i).pagetable USERTOP).v = true
  good : Good k.kmem (memUse k.kmem (k.proc i))

structure Caller (s : Machine) (i : Nat) : Prop extends Holder s.kernel i where
  spare : Spare s.kernel
  blank : forall j, j < NPROC -> (s.kernel.proc j).state = .unused -> Blank (s.slot j)

theorem Live.holder (hlive : Live k.kmem k.trampoline (k.proc i))
    (hactive : (k.proc i).state ≠ .unused) (hgood : Good k.kmem (memUse k.kmem (k.proc i))) :
    Holder k i :=
  { active := hactive
    pagetable_ne := hlive.pagetable_ne
    trapframe_ne := hlive.trapframe_ne
    inner := hlive.space.inner
    fixed := congrArg Pte.v hlive.space.trapframe_eq
    good := hgood }

theorem Owned.holder {lo : Page} {extra : Page -> Nat}
    (h : Owned lo k.kmem k.trampoline k.proc extra) (hi : i < NPROC)
    (hactive : (k.proc i).state ≠ .unused) : Holder k i :=
  ((h.wf i hi).live hactive).holder hactive
    ((h.good_proc hi).mono fun _ => Nat.le_add_right _ _)

theorem Owned.caller {lo : Page} {extra : Page -> Nat}
    (h : Owned lo s.kernel.kmem s.kernel.trampoline s.kernel.proc extra) (hi : i < NPROC)
    (hactive : (s.kernel.proc i).state ≠ .unused)
    (hblank : forall j, j < NPROC -> (s.kernel.proc j).state = .unused -> Blank (s.slot j)) :
    Caller s i :=
  { h.holder hi hactive with
    spare := h.spare
    blank := hblank }

theorem Holder.use_le (h : Holder k i) (q : Page) :
    use k.kmem (k.proc i).pagetable q + one (k.proc i).trapframe q <=
      memUse k.kmem (k.proc i) q := by
  unfold memUse
  rw [if_neg h.pagetable_ne, if_neg h.trapframe_ne]
  omega

theorem Holder.nodes_le (h : Holder k i) (q : Page) :
    nodes k.kmem (k.proc i).pagetable q <= memUse k.kmem (k.proc i) q := by
  have hle := h.use_le q
  have hnodes := nodes_le_use k.kmem (k.proc i).pagetable q
  omega

theorem Holder.trapframe_held (h : Holder k i) :
    memUse k.kmem (k.proc i) (k.proc i).trapframe ≠ 0 := by
  have hle := h.use_le (k.proc i).trapframe
  rw [one_self] at hle
  omega

theorem Holder.leaf_held (h : Holder k i) {v : Nat} (hv : v < USERTOP)
    (hvalid : (leafAt k.kmem (k.proc i).pagetable v).v = true) :
    memUse k.kmem (k.proc i) (leafAt k.kmem (k.proc i).pagetable v).ppn ≠ 0 := by
  have hle := h.use_le (leafAt k.kmem (k.proc i).pagetable v).ppn
  have huse := leaf_in_use hv hvalid
  omega

theorem Holder.leaf_ne_trapframe (h : Holder k i) {v : Nat} (hv : v < USERTOP)
    (hvalid : (leafAt k.kmem (k.proc i).pagetable v).v = true) :
    (leafAt k.kmem (k.proc i).pagetable v).ppn ≠ (k.proc i).trapframe := by
  intro heq
  have hle := h.use_le (leafAt k.kmem (k.proc i).pagetable v).ppn
  have huse := leaf_in_use hv hvalid
  have hone := h.good.le_one (leafAt k.kmem (k.proc i).pagetable v).ppn
  rw [heq, one_self] at hle
  rw [heq] at huse hone
  omega

theorem Holder.not_free (h : Holder k i) {q : Page} (hq : memUse k.kmem (k.proc i) q ≠ 0) :
    k.kmem.free.count q = 0 := by
  have hone := h.good.le_one q
  omega

theorem Holder.good_use (h : Holder k i) :
    Good k.kmem (use k.kmem (k.proc i).pagetable) := by
  refine h.good.mono fun q => ?_
  have hle := h.use_le q
  omega

theorem Holder.trapframe_apart (h : Holder k i) :
    nodes k.kmem (k.proc i).pagetable (k.proc i).trapframe +
      k.kmem.free.count (k.proc i).trapframe = 0 := by
  have hle := h.use_le (k.proc i).trapframe
  have hone := h.good.le_one (k.proc i).trapframe
  have hnodes := nodes_le_use k.kmem (k.proc i).pagetable (k.proc i).trapframe
  rw [one_self] at hle
  omega

/-- What a `kfork` that fails leaves: the state before, but for the pid counter and the context
and the killed flag of a slot that is not used. -/
structure Restored (s s' : Machine) : Prop where
  table : s'.kernel = { s.kernel with kmem := s'.kernel.kmem }
  slot : forall j, s'.slot j = s.slot j ∨
    (s.kernel.proc j).state = .unused ∧
      s'.slot j = { s.slot j with
        killed := 0
        context := (s'.slot j).context }
  kstack : s'.kstack = s.kstack
  inodeRef : s'.inodeRef = s.inodeRef
  inodeLocked : s'.inodeLocked = s.inodeLocked
  outstanding : s'.outstanding = s.outstanding
  free : s'.kernel.kmem.free.Perm s.kernel.kmem.free
  memory : forall q, q ∉ s.kernel.kmem.free ->
    s'.kernel.kmem.entry q = s.kernel.kmem.entry q ∧ s'.data q = s.data q

theorem Blank.freed_eq {sl : Info} (h : Blank sl) : sl.freed = { sl with killed := 0 } := by
  have hname : update sl.name 0 0 = sl.name := by
    conv_rhs => rw [← update_eq_self 0 sl.name]
    rw [h.name]
  unfold Info.freed
  rw [hname, h.pid, h.chan, h.xstate]

theorem moves_undone {y : Ram} (h : Moves x y (fun _ => 0) (fun _ => 0)) :
    y.kmem.free.Perm x.kmem.free ∧ forall q, q ∉ x.kmem.free ->
      y.kmem.entry q = x.kmem.entry q ∧ y.data q = x.data q := by
  refine ⟨?_, ?_⟩
  · rw [List.perm_iff_count]
    intro q
    have htotal := h.conserve.total q
    rw [Nat.zero_add, Nat.zero_add] at htotal
    exact htotal
  · intro q hq
    have hcount : 0 + x.kmem.free.count q = 0 := by
      rw [Nat.zero_add]
      exact List.count_eq_zero.mpr hq
    exact ⟨h.conserve.frame q hcount, h.data q hcount⟩

theorem restored_of_moves (sl : Info)
    (hkernel : s'.kernel = { s.kernel with kmem := s'.kernel.kmem })
    (hmoves : Moves s.ram s'.ram (fun _ => 0) (fun _ => 0))
    (hunused : (s.kernel.proc j).state = .unused) (hblank : Blank (s.slot j))
    (hsl : sl = { (s.slot j).freed with context := sl.context })
    (hnumbered : Numbered s s' j sl) : Restored s s' := by
  refine ⟨hkernel, ?_, hnumbered.kstack, hnumbered.inodeRef, hnumbered.inodeLocked,
    hnumbered.outstanding, ?_, ?_⟩
  · intro j'
    rw [hnumbered.slot]
    by_cases hj : j' = j
    · subst hj
      rw [update_self]
      refine .inr ⟨hunused, ?_⟩
      conv_lhs => rw [hsl]
      rw [hblank.freed_eq]
    · rw [update_of_ne hj]
      exact .inl rfl
  · exact (moves_undone hmoves).1
  · exact (moves_undone hmoves).2

theorem Restored.refl (s : Machine) : Restored s s :=
  ⟨rfl, fun _ => .inl rfl, rfl, rfl, rfl, rfl, List.Perm.refl _, fun _ _ => ⟨rfl, rfl⟩⟩

theorem Fresh.copying (h : Holder s.kernel i) (hfresh : Fresh s.kernel s'.kernel j 0) :
    Copying s'.ram (s'.kernel.proc i).pagetable (s'.kernel.proc j).pagetable 0
      (memUse s.kernel.kmem (s.kernel.proc i)) := by
  have hproc := hfresh.proc_ne (hfresh.ne h.active)
  have hlive := hfresh.live
  have hspace := hlive.space
  have hsz : (s'.kernel.proc j).sz = 0 := by
    rw [hfresh.proc_eq]
  rw [hsz] at hspace
  have hsame := hfresh.conserve.same_of_take h.good h.nodes_le
  rw [hproc]
  refine ⟨hspace.inner, ?_, ?_, Nat.zero_le _,
    fun v _ hv => hspace.unmapped v (Nat.zero_le v) hv, ?_,
    ?_⟩
  · refine (h.good.conserve ((hfresh.conserve.add (memUse s.kernel.kmem (s.kernel.proc i))).congr
      (fun q => (Nat.zero_add _).symm) fun _ => rfl)).mono fun q => ?_
    have hle := nodes_le_use s'.kernel.kmem (s'.kernel.proc j).pagetable q
    have heq := hlive.memUse_eq q
    have hram : s'.ram.kmem = s'.kernel.kmem := rfl
    rw [hram]
    omega
  · intro q
    have hle := h.use_le q
    have heq := hsame.use_eq q
    have hram : s'.ram.kmem = s'.kernel.kmem := rfl
    rw [hram]
    omega
  · exact (congrArg Pte.v (hsame.leaf_eq USERTOP)).trans h.fixed
  · have hleaf := hspace.trapframe_eq
    have hram : s'.ram.kmem = s'.kernel.kmem := rfl
    rw [hram, hleaf]
    rfl

theorem Fresh.space (hfresh : Fresh s.kernel s'.kernel j 0)
    (hinner : Inner x.kmem (s'.kernel.proc j).pagetable)
    (hgone : forall v, v < USERTOP -> (leafAt x.kmem (s'.kernel.proc j).pagetable v).v = false)
    (hkept : forall v, v < VPNS -> USERTOP <= v ->
      leafAt x.kmem (s'.kernel.proc j).pagetable v =
        leafAt s'.kernel.kmem (s'.kernel.proc j).pagetable v) :
    Space x.kmem s'.kernel.trampoline (s'.kernel.proc j).trapframe
      (s'.kernel.proc j).pagetable 0 := by
  have htop := USERTOP_le
  have hspace := hfresh.live.space
  have hsz : (s'.kernel.proc j).sz = 0 := by
    rw [hfresh.proc_eq]
  rw [hsz] at hspace
  refine ⟨hinner, Nat.zero_le _, ?_, ?_, ?_⟩
  · rw [hkept _ (by omega) (by omega)]
    exact hspace.trampoline_eq
  · rw [hkept _ (by omega) (Nat.le_refl _)]
    exact hspace.trapframe_eq
  · intro v hv _ h1 h2
    by_cases hlt : v < USERTOP
    · exact hgone v hlt
    · rw [hkept v hv (by omega)]
      exact hspace.rest v hv (Nat.zero_le v) h1 h2

theorem memUse_bare (hpagetable : p.pagetable ≠ 0)
    (htrapframe : p.trapframe ≠ 0) (hargv : p.argv = []) (m : Kmem)
    (hgone : forall v, v < USERTOP -> (leafAt m p.pagetable v).v = false) (q : Page) :
    memUse m p q = nodes m p.pagetable q + one p.trapframe q := by
  unfold memUse use
  rw [if_neg hpagetable, if_neg htrapframe, hargv, List.count_nil,
    mappedIn_eq_zero 0 q fun v _ hv => hgone v (by omega)]
  omega

theorem kfork_restored (h : Caller s i) (hrun : s.kfork i = .ok (s', none)) : Restored s s' := by
  rcases allocproc_moves h.spare with ⟨s1, np, halloc, hnone, hsome⟩
  unfold Machine.kfork at hrun
  rw [halloc, ok_bind] at hrun
  cases np with
  | none =>
    cases hrun
    rcases hnone rfl with ⟨hunchanged, hmoves, hslot⟩
    rcases hslot with rfl | ⟨j, hj, hunused, hnumbered⟩
    · exact Restored.refl _
    · exact restored_of_moves _ hunchanged.1 hmoves hunused (h.blank j hj hunused) rfl hnumbered
  | some j =>
    rcases hsome j rfl with ⟨hfresh, hmoves, hnumbered⟩
    rcases bind_eq_ok.mp hrun with ⟨⟨x, copied⟩, hcopy, hrun⟩
    dsimp only at hrun
    cases copied with
    | true =>
      rcases bind_eq_ok.mp hrun with ⟨k, _, hrun⟩
      split at hrun
      · cases hrun
      · cases hrun
    | false =>
      rcases bind_eq_ok.mp hrun with ⟨s2, hfree, hrun⟩
      cases hrun
      have hargv : (s1.kernel.proc j).argv = [] := by
        rw [hfresh.proc_eq]
        exact (h.spare.idle j hfresh.lt hfresh.unused).argv_eq
      have hsz : (s1.kernel.proc j).sz = 0 := by
        rw [hfresh.proc_eq]
      have hlive := hfresh.live
      have hcopying := Fresh.copying h.toHolder hfresh
      rcases uvmcopyLoop_undone hcopying hcopy with ⟨hinner, hundone, hgone, hkept⟩
      have hbare := memUse_bare hlive.pagetable_ne hlive.trapframe_ne hargv
      have hcopied : Moves s1.ram x (memUse s1.kernel.kmem (s1.kernel.proc j))
          (memUse x.kmem (s1.kernel.proc j)) :=
        (hundone.add (one (s1.kernel.proc j).trapframe)).congr
          (hbare s1.kernel.kmem fun v hv => hcopying.empty v (Nat.zero_le v) hv)
          (hbare x.kmem hgone)
      have hbefore := hmoves.trans hcopied
      rcases freeproc_moves (s := s1.setRam x) (i := j) rfl hargv
        (fun _ => ⟨hlive.size_le, by
          have hpages : pages (s1.kernel.proc j).sz = 0 := by
            rw [hsz]
            rfl
          have hspace := hfresh.space hinner hgone hkept
          rw [← hpages] at hspace
          exact hspace⟩)
        (h.spare.good.conserve hbefore.conserve) with ⟨y, hfree', hfreed⟩
      rw [hfree] at hfree'
      cases hfree'
      have hidle := h.spare.idle j hfresh.lt hfresh.unused
      have hproc : (s1.kernel.proc j).freed = s.kernel.proc j := by
        rw [hfresh.proc_eq]
        exact hidle.freed_eq hfresh.unused
      refine restored_of_moves (j := j) (s1.slot j).freed ?_ (hbefore.trans hfreed)
        hfresh.unused (h.blank j hfresh.lt hfresh.unused) ?_
        ⟨?_, hnumbered.nextpid, hnumbered.inodeRef, hnumbered.inodeLocked, hnumbered.outstanding,
          hnumbered.kstack, hnumbered.forkret⟩
      · change ({ s1.kernel with kmem := y.kmem }.setProc j (s1.kernel.proc j).freed) = _
        rw [hproc, hfresh.eq]
        simp [Kernel.setProc, Machine.setRam, Machine.setProc, Machine.setSlot]
      · rw [hnumbered.slot, update_self]
        rfl
      · change update s1.slot j (s1.slot j).freed = _
        rw [hnumbered.slot, update_idem]

structure Intact (s s' : Machine) (i : Nat) : Prop where
  proc_eq : s'.kernel.proc i = s.kernel.proc i
  slot_eq : s'.slot i = s.slot i
  bindings_eq : forall v, v < VPNS -> bindings s'.kernel.kmem (s.kernel.proc i).pagetable v =
    bindings s.kernel.kmem (s.kernel.proc i).pagetable v
  bytes : forall v, v < USERTOP ->
    (leafAt s.kernel.kmem (s.kernel.proc i).pagetable v).v = true ->
    s'.data (leafAt s.kernel.kmem (s.kernel.proc i).pagetable v).ppn =
      s.data (leafAt s.kernel.kmem (s.kernel.proc i).pagetable v).ppn
  trapframe : s'.data (s.kernel.proc i).trapframe = s.data (s.kernel.proc i).trapframe

theorem Holder.intact (h : Holder s.kernel i) (hproc : s'.kernel.proc i = s.kernel.proc i)
    (hslot : s'.slot i = s.slot i) (hmemory : forall q, q ∉ s.kernel.kmem.free ->
      s'.kernel.kmem.entry q = s.kernel.kmem.entry q ∧ s'.data q = s.data q) : Intact s s' i := by
  have hused : forall q, nodes s.kernel.kmem (s.kernel.proc i).pagetable q ≠ 0 ->
      q ∉ s.kernel.kmem.free := by
    intro q hq hmem
    have hcount := List.count_pos_iff.mpr hmem
    have hone := h.good_use.le_one q
    have hle := nodes_le_use s.kernel.kmem (s.kernel.proc i).pagetable q
    omega
  have hsame : Same s.kernel.kmem s'.kernel.kmem (s.kernel.proc i).pagetable :=
    same_of_agree fun p hp k _ => congrFun (hmemory p (hused p hp)).1 k
  refine ⟨hproc, hslot, ?_, ?_, ?_⟩
  · intro v _
    unfold bindings
    rw [hsame.leaf_eq v]
  · intro v hv hvalid
    exact (hmemory _ (leaf_not_free h.good_use hv hvalid)).2
  · refine (hmemory _ (List.count_eq_zero.mp ?_)).2
    have hapart := h.trapframe_apart
    omega

theorem Restored.intact (hr : Restored s s') (h : Caller s i) : Intact s s' i := by
  refine h.toHolder.intact ?_ ?_ hr.memory
  · rw [hr.table]
  · rcases hr.slot i with heq | ⟨hunused, _⟩
    · exact heq
    · exact absurd hunused h.active

/-!
## `growproc`
-/

theorem growproc_undone (h : Caller s i) {n : Int} (hn : 0 < n)
    (hrun : s.growproc i n = .ok (s', false)) :
    s' = s.setRam s'.ram ∧ Intact s s' i ∧ forall q, q ∈ s.kernel.kmem.free ->
      q ∈ s'.kernel.kmem.free ∨ nodes s'.kernel.kmem (s.kernel.proc i).pagetable q ≠ 0 := by
  unfold Machine.growproc at hrun
  dsimp only at hrun
  rw [if_pos hn] at hrun
  rcases bind_eq_ok.mp hrun with ⟨⟨x, sz⟩, halloc, hrun⟩
  dsimp only at hrun
  split at hrun
  next hzero =>
    subst hzero
    cases hrun
    have hgood := h.good_use
    have htree : Tree s.ram.kmem (s.kernel.proc i).pagetable :=
      ⟨h.inner, hgood.mono fun q => nodes_le_use _ _ q⟩
    have hundone := uvmalloc_undone htree halloc
    refine ⟨rfl, ⟨rfl, rfl, hundone.bindings_eq, ?_, ?_⟩, ?_⟩
    · intro v hv hvalid
      exact hundone.moves.data _ (leaf_apart hgood hv hvalid)
    · exact hundone.moves.data _ h.trapframe_apart
    · intro q hq
      have htotal := hundone.moves.conserve.total q
      have hcount : 0 < s.ram.kmem.free.count q := List.count_pos_iff.mpr hq
      by_cases hfree : q ∈ x.kmem.free
      · exact .inl hfree
      · have hnone := List.count_eq_zero.mpr hfree
        refine .inr ?_
        have hram : (s.setRam x).kernel.kmem = x.kmem := rfl
        rw [hram]
        omega
  · cases hrun

theorem failed_calls_undone (h : Caller s i) :
    (forall s', s.kfork i = .ok (s', none) -> Restored s s' ∧ Intact s s' i) ∧
      forall n s', 0 < n -> s.growproc i n = .ok (s', false) ->
        s' = s.setRam s'.ram ∧ Intact s s' i ∧ forall q, q ∈ s.kernel.kmem.free ->
          q ∈ s'.kernel.kmem.free ∨ nodes s'.kernel.kmem (s.kernel.proc i).pagetable q ≠ 0 := by
  constructor
  · intro s' hrun
    have hrestored := kfork_restored h hrun
    exact ⟨hrestored, hrestored.intact h⟩
  · intro n s' hn hrun
    exact growproc_undone h hn hrun

end

/-!
## A machine in a state of the kernel
-/

/-- The memory is not all zero. -/
def Kernel.machine (k : Kernel) : Machine :=
  { kernel := k
    data := fun q j => UInt8.ofNat (q + j)
    slot := fun i =>
      { pid := if (k.proc i).state = .unused then 0 else i + 1
        chan := 0
        killed := 0
        xstate := 0
        name := fun _ => 0
        cwd := some 0
        context := { ra := 0, sp := 0, s := fun _ => 0 } }
    nextpid := NPROC + 1
    inodeRef := fun _ => 1
    inodeLocked := fun _ => false
    outstanding := 0
    kstack := fun _ => 0
    forkret := 0 }

section

variable {b : Boot}

theorem Kernel.machine_live (h : (system b).ReachableVia Fits k) (hi : i < NPROC)
    (hactive : (k.proc i).state ≠ .unused) : Live k.kmem k.trampoline (k.proc i) :=
  ((reachable_sound h).owned.wf i hi).live hactive

theorem Kernel.machine_caller (h : (system b).ReachableVia Fits k) (hi : i < NPROC)
    (hactive : (k.proc i).state ≠ .unused) : Caller k.machine i :=
  Owned.caller (s := k.machine) (reachable_sound h).owned hi hactive
    fun _ _ hunused => ⟨if_pos hunused, rfl, rfl, rfl⟩

end

/-- The small machine with all but `n` pages kept by the kernel. -/
def tightBoot (n : Nat) (hn : n <= 32734) : Boot :=
  { smallBoot with
    kept := List.range' 0x80022 (32734 - n)
    free := List.range' (0x80022 + (32734 - n)) n
    once := by
      intro q
      rw [count_ranges, Nat.add_assoc, Nat.sub_add_cancel hn]
      rfl }

/-- A fork gets its four pages of `allocproc` and runs out of memory in `uvmcopy`; eight more pages
can be had, and nine cannot. -/
theorem failed_calls_undone_tight : exists s s1 s' s2 s'', Caller s 0 ∧
    (s.kernel.proc 0).sz = 4 * PGSIZE ∧ s.kernel.kmem.free.length = 8 ∧
    s.allocproc = .ok (s1, some 1) ∧ s1.kernel.kmem.free.length = 4 ∧
    s.kfork 0 = .ok (s', none) ∧ Restored s s' ∧ Intact s s' 0 ∧
    s.growproc 0 (8 * PGSIZE) = .ok (s2, true) ∧
    s.growproc 0 (9 * PGSIZE) = .ok (s'', false) ∧ Intact s s'' 0 := by
  have hcheck : passes (tightBoot 18 (by decide)).start
    (fun k => passes k.machine.allocproc fun c =>
      passes (k.machine.kfork 0) fun a => passes (k.machine.growproc 0 (8 * PGSIZE)) fun d =>
        passes (k.machine.growproc 0 (9 * PGSIZE)) fun e =>
          decide (c.2 = some 1 ∧ a.2 = none ∧ d.2 = true ∧ e.2 = false ∧
            (k.proc 0).state ≠ .unused ∧ (k.proc 0).sz = 4 * PGSIZE ∧ k.kmem.free.length = 8 ∧
            c.1.kernel.kmem.free.length = 4)) = true := by
    decide +kernel
  obtain ⟨k, hstart, hcheck⟩ := passes_eq_true.mp hcheck
  obtain ⟨⟨s1, _⟩, halloc, hcheck⟩ := passes_eq_true.mp hcheck
  obtain ⟨⟨s', _⟩, hfork, hcheck⟩ := passes_eq_true.mp hcheck
  obtain ⟨⟨s2, _⟩, hgrow, hcheck⟩ := passes_eq_true.mp hcheck
  obtain ⟨⟨s'', _⟩, hfail, hcheck⟩ := passes_eq_true.mp hcheck
  rcases of_decide_eq_true hcheck with ⟨rfl, rfl, rfl, rfl, hactive, hsz, hfree, hleft⟩
  have hcaller : Caller k.machine 0 :=
    Kernel.machine_caller (Boot.start_reachable hstart) (by decide) hactive
  have hundone := failed_calls_undone hcaller
  rcases hundone.1 s' hfork with ⟨hrestored, hintact⟩
  exact ⟨k.machine, s1, s', s2, s'', hcaller, hsz, hfree, halloc, hleft, hfork, hrestored, hintact,
    hgrow, hfail, (hundone.2 _ s'' (by decide) hfail).2.1⟩

theorem Caller.kkill (h : Caller s i) (pid : Nat) :
    Caller (s.kkill pid).1 i := by
  unfold Machine.kkill
  split
  · exact h
  next k _ =>
    refine { h with blank := ?_ }
    intro j hj hunused
    have hblank := h.blank j hj hunused
    by_cases hjk : j = k
    · subst hjk
      change Blank (update s.slot j { s.slot j with killed := 1 } j)
      rw [update_self]
      exact ⟨hblank.pid, hblank.chan, hblank.xstate, hblank.name⟩
    · change Blank (update s.slot k { s.slot k with killed := 1 } j)
      rw [update_of_ne hjk]
      exact hblank

/-- `kill(0)` marks a slot that is not used, and a `kfork` that fails clears the mark. -/
theorem failed_fork_clears_killed : exists s s' : Machine, Caller (s.kkill 0).1 0 ∧
    (s.kkill 0).1.kfork 0 = .ok (s', none) ∧ (s.kernel.proc 1).state = .unused ∧
    ((s.kkill 0).1.slot 1).killed = 1 ∧ (s'.slot 1).killed = 0 := by
  have hcheck : passes (userinit (tightBoot 4 (by decide)).kernel) (fun k =>
      passes ((k.machine.kkill 0).1.kfork 0) fun a =>
        decide (a.2 = none ∧ (k.proc 0).state ≠ .unused ∧ (k.proc 1).state = .unused ∧
          ((k.machine.kkill 0).1.slot 1).killed = 1 ∧ (a.1.slot 1).killed = 0)) = true := by
    decide +kernel
  obtain ⟨k, hinit, hcheck⟩ := passes_eq_true.mp hcheck
  obtain ⟨⟨s', _⟩, hfork, hcheck⟩ := passes_eq_true.mp hcheck
  rcases of_decide_eq_true hcheck with ⟨rfl, hactive, hrest⟩
  exact ⟨k.machine, s', (Kernel.machine_caller (.init hinit) (by decide) hactive).kkill 0, hfork,
    hrest⟩

end Process
end Xv6
