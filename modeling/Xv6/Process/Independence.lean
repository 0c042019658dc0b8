import Xv6.Process.Failure

/-!
# The copy that `fork` makes

The child of a `kfork` that succeeds has a copy of the parent's memory in pages of its own.
From then on the two share nothing: what a process does to its memory is not seen by
another one, unless its size has passed the trapframe.
-/

namespace Xv6
namespace Process

open Lib Vm Function

/-!
## What processes do
-/

/-- A process stores a byte, takes a page fault, or calls `sbrk`.  In `frame` the trap code writes
to the trapframe: `uservec` and `usertrap` save the registers, `syscall` stores its result in `a0`,
and `prepare_return` stores what the next trap needs. -/
inductive Act where
  | store (i va : Nat) (c : UInt8)
  | fault (i va : Nat)
  | sbrk (i : Nat) (n : Int) (eager : Bool)
  | frame (i off n : Nat) (src : Nat -> UInt8)

def Act.proc : Act -> Nat
  | .store i _ _ => i
  | .fault i _ => i
  | .sbrk i _ _ => i
  | .frame i _ _ _ => i

/-- A store to a page that is not there or cannot be written does nothing; the fault that
follows is a step of its own. -/
def Act.run (s : Machine) : Act -> Except Panic Machine
  | .store i va c =>
    match s.ram.translate (s.kernel.proc i).pagetable true va with
    | none => return s
    | some pa => return s.setRam (s.ram.store pa (va % PGSIZE) 1 fun _ => c)
  | .fault i va => do
      let (x, mem) ← s.ram.vmfault (s.kernel.myproc i) (s.kernel.proc i).pagetable va
      let s := s.setRam x
      match mem with
      | some _ => return s
      | none => return s.setSlot i { s.slot i with killed := 1 }
  | .sbrk i n eager => (s.sysSbrk i n eager).map Prod.fst
  | .frame i off n src => return s.setRam (s.ram.store (s.kernel.proc i).trapframe off n src)

def Act.Enabled (s : Machine) : Act -> Prop
  | .store i _ _ => i < NPROC ∧ (s.kernel.proc i).state = .runnable
  | .fault i _ => i < NPROC ∧ (s.kernel.proc i).state = .runnable
  | .sbrk i n _ => (i < NPROC ∧ (s.kernel.proc i).state = .runnable) ∧ -(2 ^ 31) <= n ∧ n < 2 ^ 31
  | .frame i off n _ => (i < NPROC ∧ (s.kernel.proc i).state = .runnable) ∧ off + n <= TRAPFRAMESIZE

def acts (s0 : Machine) : System Machine Act :=
  { init := fun s => s = s0
    step := fun s a s' => a.Enabled s ∧ a.run s = .ok s' }

def Act.Fits (s : Machine) : Act -> Prop
  | .sbrk i n eager => SbrkFits s.kernel i n eager
  | _ => True

def Machine.sees (s : Machine) (b va : Nat) : Option UInt8 :=
  s.ram.userByte (s.kernel.proc b).pagetable va

section

variable {s s' : Machine} {i : Nat} {lo : Page} {extra : Page -> Nat}

structure Alone (s s' : Machine) (i : Nat) : Prop where
  kernel : Private s.kernel s'.kernel i
  data : forall q, memUse s.kernel.kmem (s.kernel.proc i) q + s.kernel.kmem.free.count q = 0 ->
    s'.data q = s.data q

theorem Alone.owned (h : Owned lo s.kernel.kmem s.kernel.trampoline s.kernel.proc extra)
    (hi : i < NPROC) (hactive : (s.kernel.proc i).state ≠ .unused) (ha : Alone s s' i) :
    Owned lo s'.kernel.kmem s'.kernel.trampoline s'.kernel.proc extra := by
  have heq := ha.kernel.eq
  have htramp : s'.kernel.trampoline = s.kernel.trampoline := by
    rw [heq]
    rfl
  have hproc : s'.kernel.proc = update s.kernel.proc i (s'.kernel.proc i) := by
    conv_lhs => rw [heq]
    rfl
  have hwf := ha.kernel.wf hactive
  rw [htramp] at hwf ⊢
  rw [hproc]
  exact h.update hi ha.kernel.conserve hwf

theorem Live.user_page {m : Kmem} {trampoline : Page} {p : Proc} (h : Live m trampoline p)
    {va : Nat} (hva : va < MAXVA) (hvalid : (leafAt m p.pagetable (va / PGSIZE)).v = true)
    (huser : (leafAt m p.pagetable (va / PGSIZE)).u = true) :
    va / PGSIZE < USERTOP ∧ memUse m p (leafAt m p.pagetable (va / PGSIZE)).ppn ≠ 0 := by
  have htop := USERTOP_le
  have hpage : va / PGSIZE < USERTOP + 2 := by
    rw [MAXVA_eq] at hva
    exact (Nat.div_lt_iff_lt_mul (by decide)).mpr hva
  have hlt := h.space.user_lt (by omega) hvalid huser
  have hbound := h.space.bound
  have hv : va / PGSIZE < USERTOP := by
    omega
  refine ⟨hv, ?_⟩
  have huse := leaf_in_use hv hvalid
  rw [h.memUse_eq]
  omega

structure Unseen (s s' : Machine) (b : Nat) : Prop where
  proc_eq : s'.kernel.proc b = s.kernel.proc b
  sees_eq : forall va, s'.sees b va = s.sees b va
  trapframe : s'.data (s.kernel.proc b).trapframe = s.data (s.kernel.proc b).trapframe

theorem Alone.unseen (h : Owned lo s.kernel.kmem s.kernel.trampoline s.kernel.proc extra)
    (hi : i < NPROC) (ha : Alone s s' i) {b : Nat} (hb : b < NPROC) (hne : b ≠ i)
    (hactive : (s.kernel.proc b).state ≠ .unused) : Unseen s s' b := by
  have hproc : s'.kernel.proc b = s.kernel.proc b := by
    rw [ha.kernel.eq]
    exact update_of_ne hne _ _
  have hlive := (h.wf b hb).live hactive
  have hgood := h.good_proc hi
  have hle : forall q, memUse s.kernel.kmem (s.kernel.proc b) q <=
      others s.kernel.kmem s.kernel.proc i q + extra q := by
    intro q
    have hothers := memUse_le_others s.kernel.kmem s.kernel.proc hb hne q
    omega
  have hsame : Same s.kernel.kmem s'.kernel.kmem (s.kernel.proc b).pagetable := by
    refine ha.kernel.conserve.same_of_good hgood fun q => ?_
    have hnodes := nodes_le_use s.kernel.kmem (s.kernel.proc b).pagetable q
    have heq := hlive.memUse_eq q
    have hq := hle q
    omega
  have hdata : forall q, memUse s.kernel.kmem (s.kernel.proc b) q ≠ 0 -> s'.data q = s.data q := by
    intro q hq
    have hone := hgood.le_one q
    have hqle := hle q
    exact ha.data q (by omega)
  refine ⟨hproc, ?_, ?_⟩
  · intro va
    unfold Machine.sees Ram.userByte
    rw [hproc]
    dsimp only
    have hleaf : leafAt s'.ram.kmem (s.kernel.proc b).pagetable (va / PGSIZE) =
        leafAt s.ram.kmem (s.kernel.proc b).pagetable (va / PGSIZE) := hsame.leaf_eq _
    rw [hleaf]
    split
    next hcond =>
      have hpage := hlive.user_page hcond.1 hcond.2.1 hcond.2.2
      exact congrArg some (congrFun (hdata _ hpage.2) _)
    · rfl
  · refine hdata _ ?_
    rw [hlive.memUse_eq, one_self]
    omega

/-!
## One step
-/

theorem Alone.store (hlive : Live s.kernel.kmem s.kernel.trampoline (s.kernel.proc i)) {pg : Page}
    (hpg : memUse s.kernel.kmem (s.kernel.proc i) pg ≠ 0) (off n : Nat) (src : Nat -> UInt8) :
    Alone s (s.setRam (s.ram.store pg off n src)) i :=
  ⟨Private.refl hlive, (Moves.store (x := s.ram) hpg off n src).data⟩

theorem Alone.refl (hlive : Live s.kernel.kmem s.kernel.trampoline (s.kernel.proc i)) :
    Alone s s i :=
  ⟨Private.refl hlive, fun _ _ => rfl⟩

theorem alone_of_phases (hp : Private s.kernel s'.kernel i)
    (hdata : forall q, q ∉ s.kernel.kmem.free -> q ∉ s'.kernel.kmem.free -> s'.data q = s.data q) :
    Alone s s' i :=
  ⟨hp, (Moves.of_data (x := s.ram) (y := s'.ram) hp.conserve hdata).data⟩

theorem growproc_alone (hlive : Live s.kernel.kmem s.kernel.trampoline (s.kernel.proc i))
    (hgood : Good s.kernel.kmem (memUse s.kernel.kmem (s.kernel.proc i))) {n : Int} {done : Bool}
    (hp : Private s.kernel s'.kernel i) (hrun : s.growproc i n = .ok (s', done)) :
    Alone s s' i := by
  have htree : Tree s.ram.kmem (s.kernel.proc i).pagetable :=
    ⟨hlive.space.inner, (hlive.good_use hgood).mono fun q => nodes_le_use _ _ q⟩
  unfold Machine.growproc at hrun
  dsimp only at hrun
  split at hrun
  · rcases bind_eq_ok.mp hrun with ⟨⟨x, sz⟩, halloc, hrun⟩
    have hdata : forall q,
        memUse s.kernel.kmem (s.kernel.proc i) q + s.kernel.kmem.free.count q = 0 ->
        x.data q = s.data q := by
      intro q hq
      have hnodes := nodes_le_use s.kernel.kmem (s.kernel.proc i).pagetable q
      have heq := hlive.memUse_eq q
      have hzero : nodes s.kernel.kmem (s.kernel.proc i).pagetable q +
          s.kernel.kmem.free.count q = 0 := by
        omega
      exact uvmalloc_data htree halloc q hzero
    dsimp only at hrun
    split at hrun
    · cases hrun
      exact ⟨hp, hdata⟩
    · cases hrun
      exact ⟨hp, hdata⟩
  split at hrun
  · rcases bind_eq_ok.mp hrun with ⟨⟨x, sz⟩, hde, hrun⟩
    cases hrun
    exact alone_of_phases hp fun q _ hq => (freeing_uvmdealloc hde).data q hq
  · cases hrun
    exact ⟨hp, fun _ _ => rfl⟩

theorem sysSbrk_alone (hlive : Live s.kernel.kmem s.kernel.trampoline (s.kernel.proc i))
    (hgood : Good s.kernel.kmem (memUse s.kernel.kmem (s.kernel.proc i))) {n : Int}
    {eager done : Bool}
    (hfits : SbrkFits s.kernel i n eager) (hrun : s.sysSbrk i n eager = .ok (s', done)) :
    Alone s s' i := by
  have hp : Private s.kernel s'.kernel i := by
    rcases sysSbrk_private hlive hgood hfits with ⟨k, done', hrun', hp⟩
    rw [← sysSbrk_forget, hrun] at hrun'
    have hk : s'.kernel = k := congrArg Prod.fst (Except.ok.inj hrun')
    rw [hk]
    exact hp
  unfold Machine.sysSbrk at hrun
  dsimp only at hrun
  split at hrun
  · exact growproc_alone hlive hgood hp hrun
  split at hrun
  · cases hrun
    exact ⟨hp, fun _ _ => rfl⟩
  · cases hrun
    exact ⟨hp, fun _ _ => rfl⟩

theorem Act.alone (h : Owned lo s.kernel.kmem s.kernel.trampoline s.kernel.proc extra) {a : Act}
    (henabled : a.Enabled s) (hfits : a.Fits s) (hrun : a.run s = .ok s') :
    a.proc < NPROC ∧ (s.kernel.proc a.proc).state ≠ .unused ∧ Alone s s' a.proc := by
  have hactive : a.proc < NPROC ∧ (s.kernel.proc a.proc).state = .runnable := by
    cases a with
    | store i va c => exact henabled
    | fault i va => exact henabled
    | sbrk i n eager => exact henabled.1
    | frame i off n src => exact henabled.1
  have hunused : (s.kernel.proc a.proc).state ≠ .unused := by
    rw [hactive.2]
    decide
  have hlive := (h.wf a.proc hactive.1).live hunused
  have hgood : Good s.kernel.kmem (memUse s.kernel.kmem (s.kernel.proc a.proc)) :=
    (h.good_proc hactive.1).mono fun _ => Nat.le_add_right _ _
  refine ⟨hactive.1, hunused, ?_⟩
  cases a with
  | store i va c =>
    simp only [Act.run] at hrun
    split at hrun
    · cases hrun
      exact Alone.refl hlive
    next pa htrans =>
      cases hrun
      rcases translate_some htrans with ⟨hva, hvalid, huser, rfl⟩
      exact Alone.store hlive (hlive.user_page hva hvalid huser).2 _ _ _
  | fault i va =>
    rcases bind_eq_ok.mp hrun with ⟨⟨x, mem⟩, hfault, hrun⟩
    have hp : Private s.kernel { s.kernel with kmem := x.kmem } i := by
      rcases vmfault_private hlive hgood va with ⟨m, res, hrun', hp⟩
      have herase := vmfault_kmem s.ram (s.kernel.myproc i) (s.kernel.proc i).pagetable va
      rw [hfault] at herase
      have hok := herase.trans hrun'
      have hm : x.kmem = m := congrArg Prod.fst (Except.ok.inj hok)
      rw [hm]
      exact hp
    have hdata : forall q, q ∉ s.kernel.kmem.free -> q ∉ x.kmem.free -> x.data q = s.data q :=
      fun q hq hq' => vmfault_data hfault q hq hq'
    cases mem with
    | none =>
      cases hrun
      exact alone_of_phases hp hdata
    | some pa =>
      cases hrun
      exact alone_of_phases hp hdata
  | sbrk i n eager =>
    rcases map_eq_ok.mp hrun with ⟨⟨s1, done⟩, hsbrk, heq⟩
    cases heq
    exact sysSbrk_alone hlive hgood hfits hsbrk
  | frame i off n src =>
    cases hrun
    refine Alone.store hlive ?_ off n src
    rw [hlive.memUse_eq]
    have hone : one (s.kernel.proc i).trapframe (s.kernel.proc i).trapframe = 1 := one_self _
    dsimp only [Act.proc]
    omega

theorem acts_owned {s0 : Machine}
    (h : Owned lo s0.kernel.kmem s0.kernel.trampoline s0.kernel.proc extra)
    (hreach : (acts s0).ReachableVia (fun t a => a.Fits t) s) :
    Owned lo s.kernel.kmem s.kernel.trampoline s.kernel.proc extra := by
  refine hreach.invariant (I := fun t =>
    Owned lo t.kernel.kmem t.kernel.trampoline t.kernel.proc extra) ?_ ?_
  · intro t ht
    rw [ht]
    exact h
  · intro t a t' ht hfits hstep
    rcases Act.alone ht hstep.1 hfits hstep.2 with ⟨hi, hactive, halone⟩
    exact halone.owned ht hi hactive

/-!
## The child
-/

theorem dupFiles_frame {k k' : Kernel} {j fd : Nat} (hrun : dupFiles i j k fd = .ok k') :
    k' = { k with file := k'.file }.setProc j { k.proc j with ofile := (k'.proc j).ofile } := by
  unfold dupFiles at hrun
  split at hrun
  · cases hrun
    exact (setProc_self _ j).symm
  · rcases bind_eq_ok.mp hrun with ⟨k1, hdup, hrun⟩
    cases hrun
    unfold filedup at hdup
    split at hdup
    · cases hdup
    · cases hdup
      simp [setFd, Kernel.setFile, Kernel.setProc]

theorem dupAll_frame {k k' : Kernel} {j : Nat} {l : List Nat}
    (hrun : l.foldlM (dupFiles i j) k = .ok k') :
    k' = { k with file := k'.file }.setProc j { k.proc j with ofile := (k'.proc j).ofile } := by
  induction l generalizing k with
  | nil =>
    cases hrun
    exact (setProc_self _ j).symm
  | cons fd l ih =>
    rw [List.foldlM_cons] at hrun
    rcases bind_eq_ok.mp hrun with ⟨k1, hfirst, hrun⟩
    have h1 := dupFiles_frame hfirst
    have h2 := ih hrun
    conv_lhs => rw [h2, h1]
    simp [Kernel.setProc]

structure Child (s s' : Machine) (i j : Nat) (s1 : Machine) (x : Ram) : Prop where
  alloc : s.allocproc = .ok (s1, some j)
  copy : s1.ram.uvmcopy (s1.kernel.proc i).pagetable (s1.kernel.proc j).pagetable
    (s1.kernel.proc i).sz = .ok (x, true)
  ram_eq : s'.ram = (x.store (s1.kernel.proc j).trapframe 0 TRAPFRAMESIZE
    (x.data (s1.kernel.proc i).trapframe)).store (s1.kernel.proc j).trapframe A0 8 fun _ => 0
  proc_ne : forall k, k ≠ j -> s'.kernel.proc k = s1.kernel.proc k
  slot_ne : forall k, k ≠ j -> s'.slot k = s1.slot k
  trampoline_eq : s'.kernel.trampoline = s1.kernel.trampoline
  pagetable_eq : (s'.kernel.proc j).pagetable = (s1.kernel.proc j).pagetable
  trapframe_eq : (s'.kernel.proc j).trapframe = (s1.kernel.proc j).trapframe
  argv_eq : (s'.kernel.proc j).argv = (s1.kernel.proc j).argv
  sz_eq : (s'.kernel.proc j).sz = (s1.kernel.proc i).sz
  state_eq : (s'.kernel.proc j).state = .runnable

theorem copyTrapframe_ram (s : Machine) (i j : Nat) : (s.copyTrapframe i j).ram =
    (s.ram.store (s.kernel.proc j).trapframe 0 TRAPFRAMESIZE
      (s.data (s.kernel.proc i).trapframe)).store (s.kernel.proc j).trapframe A0 8 fun _ => 0 :=
  rfl

theorem kfork_child {j : Nat} (hne : forall s1, s.allocproc = .ok (s1, some j) -> i ≠ j)
    (hrun : s.kfork i = .ok (s', some j)) : exists s1 x, Child s s' i j s1 x := by
  unfold Machine.kfork at hrun
  rcases bind_eq_ok.mp hrun with ⟨⟨s1, np⟩, halloc, hrun⟩
  cases np with
  | none => cases hrun
  | some j' =>
    rcases bind_eq_ok.mp hrun with ⟨⟨x, copied⟩, hcopy, hrun⟩
    cases copied with
    | false =>
      rcases bind_eq_ok.mp hrun with ⟨_, _, hrun⟩
      cases hrun
    | true =>
      simp only [Bool.not_true, Bool.false_eq_true, if_false] at hrun
      rcases bind_eq_ok.mp hrun with ⟨k, hdup, hrun⟩
      split at hrun
      · cases hrun
      next ip hcwd =>
        cases hrun
        have hij := hne s1 halloc
        have hframe := dupAll_frame hdup
        have hkmem : k.kmem = x.kmem := by
          rw [hframe]
          rfl
        have hself : k.proc j = { s1.kernel.proc j with
            sz := (s1.kernel.proc i).sz
            ofile := (k.proc j).ofile } := by
          conv_lhs => rw [hframe]
          simp [Kernel.setProc, Machine.copyTrapframe, Machine.setRam, Machine.setProc]
        have hother : forall l, l ≠ j -> k.proc l = s1.kernel.proc l := by
          intro l hl
          rw [hframe]
          simp [Kernel.setProc, Machine.copyTrapframe, Machine.setRam, Machine.setProc, hl]
        have hnew : (k.proc j).pagetable = (s1.kernel.proc j).pagetable ∧
            (k.proc j).trapframe = (s1.kernel.proc j).trapframe ∧
            (k.proc j).argv = (s1.kernel.proc j).argv ∧
            (k.proc j).sz = (s1.kernel.proc i).sz := by
          rw [hself]
          exact ⟨rfl, rfl, rfl, rfl⟩
        refine ⟨s1, x, halloc, hcopy, ?_, ?_, ?_, ?_, ?_, ?_, ?_, ?_, ?_⟩
        · change ({ kmem := k.kmem, data := _ } : Ram) = _
          rw [hkmem]
          refine (copyTrapframe_ram ((s1.setRam x).setProc j { s1.kernel.proc j with
            sz := (s1.kernel.proc i).sz }) i j).trans ?_
          simp only [Machine.setProc, Kernel.setProc, Machine.setRam, update_self,
            update_of_ne hij]
          rfl
        · intro l hl
          exact (update_of_ne hl _ _).trans (hother l hl)
        · intro l hl
          exact update_of_ne hl _ _
        · change k.trampoline = _
          rw [hframe]
          rfl
        all_goals
          simp [Machine.setProc, Kernel.setProc, Machine.setSlot, Machine.idup, hnew]

/-- The page `pa` is mapped by process `j` at the virtual page `v` and nowhere else. -/
def Sole (s : Machine) (j v : Nat) (pa : Page) : Prop :=
  forall k w, k < NPROC -> (s.kernel.proc k).state ≠ .unused -> w < VPNS ->
    (leafAt s.kernel.kmem (s.kernel.proc k).pagetable w).v = true ->
    (leafAt s.kernel.kmem (s.kernel.proc k).pagetable w).ppn = pa -> k = j ∧ w = v

theorem Live.leaf_cases {m : Kmem} {trampoline : Page} {p : Proc} (h : Live m trampoline p)
    {w : Nat} (hw : w < VPNS) (hvalid : (leafAt m p.pagetable w).v = true) :
    w < USERTOP ∨ w = USERTOP ∧ (leafAt m p.pagetable w).ppn = p.trapframe ∨
      (leafAt m p.pagetable w).ppn = trampoline := by
  by_cases hlt : w < USERTOP
  · exact .inl hlt
  by_cases htf : w = USERTOP
  · subst htf
    rw [h.space.trapframe_eq]
    exact .inr (.inl ⟨rfl, rfl⟩)
  by_cases htr : w = USERTOP + 1
  · subst htr
    rw [h.space.trampoline_eq]
    exact .inr (.inr rfl)
  · have hbound := h.space.bound
    rw [h.space.rest w hw (by omega) htf htr] at hvalid
    cases hvalid

theorem Owned.sole (h : Owned lo s.kernel.kmem s.kernel.trampoline s.kernel.proc extra)
    (htramp : s.kernel.trampoline < lo) {j v : Nat} (hj : j < NPROC)
    (hactive : (s.kernel.proc j).state ≠ .unused) (hv : v < USERTOP)
    (hvalid : (leafAt s.kernel.kmem (s.kernel.proc j).pagetable v).v = true) :
    Sole s j v (leafAt s.kernel.kmem (s.kernel.proc j).pagetable v).ppn := by
  intro k w hk hactive' hw hvalid' heq
  have hlive := (h.wf j hj).live hactive
  have hlive' := (h.wf k hk).live hactive'
  have huse := leaf_in_use hv hvalid
  have hmem := hlive.memUse_eq (leafAt s.kernel.kmem (s.kernel.proc j).pagetable v).ppn
  have hgood := h.good_proc hj
  have hone := hgood.le_one (leafAt s.kernel.kmem (s.kernel.proc j).pagetable v).ppn
  have hheld : memUse s.kernel.kmem (s.kernel.proc k)
      (leafAt s.kernel.kmem (s.kernel.proc j).pagetable v).ppn ≠ 0 := by
    have hmem' := hlive'.memUse_eq (leafAt s.kernel.kmem (s.kernel.proc j).pagetable v).ppn
    rcases hlive'.leaf_cases hw hvalid' with hlt | ⟨_, htf⟩ | htr
    · have huse' := leaf_in_use hlt hvalid'
      rw [heq] at huse'
      omega
    · rw [heq] at htf
      rw [← htf, one_self] at hmem'
      omega
    · have hmanaged := (hgood.managed
        (leafAt s.kernel.kmem (s.kernel.proc j).pagetable v).ppn (by omega)).1
      rw [h.kend_eq, ← heq, htr] at hmanaged
      exact absurd hmanaged (Nat.not_le.mpr htramp)
  have hkj : k = j := by
    by_contra hne
    have hle := memUse_le_others s.kernel.kmem s.kernel.proc hk hne
      (leafAt s.kernel.kmem (s.kernel.proc j).pagetable v).ppn
    omega
  subst hkj
  refine ⟨rfl, ?_⟩
  rcases hlive.leaf_cases hw hvalid' with hlt | ⟨_, htf⟩ | htr
  · exact leaf_inj (hlive.good_use (hgood.mono fun _ => Nat.le_add_right _ _)) hlt hv hvalid' hvalid
      heq
  · rw [← htf, ← heq, one_self] at hmem
    rw [heq] at hmem
    omega
  · have hmanaged := (hgood.managed
      (leafAt s.kernel.kmem (s.kernel.proc k).pagetable v).ppn (by omega)).1
    rw [h.kend_eq, ← heq, htr] at hmanaged
    exact absurd hmanaged (Nat.not_le.mpr htramp)

/-- The child `j` is an equal copy of its parent `i`, which is as before. -/
structure ForkCopy (s s' : Machine) (i j : Nat) : Prop where
  sz_eq : (s'.kernel.proc j).sz = (s.kernel.proc i).sz
  absent : forall v, v * PGSIZE < (s.kernel.proc i).sz ->
    (leafAt s.kernel.kmem (s.kernel.proc i).pagetable v).v = false ->
    (leafAt s'.kernel.kmem (s'.kernel.proc j).pagetable v).v = false
  present : forall v, v * PGSIZE < (s.kernel.proc i).sz ->
    (leafAt s.kernel.kmem (s.kernel.proc i).pagetable v).v = true -> exists pa,
      leafAt s'.kernel.kmem (s'.kernel.proc j).pagetable v =
        (leafAt s.kernel.kmem (s.kernel.proc i).pagetable v).perm.pte pa ∧
      s'.data pa = s.data (leafAt s.kernel.kmem (s.kernel.proc i).pagetable v).ppn ∧
      pa ≠ (leafAt s.kernel.kmem (s.kernel.proc i).pagetable v).ppn ∧ Sole s' j v pa
  registers : forall k, k < TRAPFRAMESIZE -> s'.data (s'.kernel.proc j).trapframe k =
    if A0 <= k ∧ k < A0 + 8 then 0 else s.data (s.kernel.proc i).trapframe k
  parent : Intact s s' i

section

variable {j : Nat} {s1 : Machine} {x : Ram}

section

variable (h : Child s s' i j s1 x)
include h

theorem Child.memUse_eq (m : Kmem) (q : Page) :
    memUse m (s'.kernel.proc j) q = memUse m (s1.kernel.proc j) q := by
  unfold memUse
  rw [h.pagetable_eq, h.trapframe_eq, h.argv_eq]

theorem Child.kmem_eq : s'.kernel.kmem = x.kmem :=
  congrArg Ram.kmem h.ram_eq

theorem Child.moves (hsz : (s1.kernel.proc i).sz <= TRAPFRAME)
    (hspare : Spare s.kernel) (hfresh : Fresh s.kernel s1.kernel j 0)
    (hmoves : Moves s.ram s1.ram (fun _ => 0) (memUse s1.kernel.kmem (s1.kernel.proc j)))
    (hempty : forall v, v < USERTOP ->
      (leafAt s1.kernel.kmem (s1.kernel.proc j).pagetable v).v = false)
    (hcopied : Copied s1.ram x (s1.kernel.proc i).pagetable (s1.kernel.proc j).pagetable 0
      (pages (s1.kernel.proc i).sz)) :
    Moves s.ram s'.ram (fun _ => 0) (memUse s'.kernel.kmem (s'.kernel.proc j)) := by
  have hlive := hfresh.live
  have hargv : (s1.kernel.proc j).argv = [] := by
    rw [hfresh.proc_eq]
    exact (hspare.idle j hfresh.lt hfresh.unused).argv_eq
  have hbound := pages_le hsz
  have htop := USERTOP_le
  have hmapped : forall q, mappedIn (leafAt x.kmem (s1.kernel.proc j).pagetable) 0 USERTOP q =
      mappedIn (leafAt x.kmem (s1.kernel.proc j).pagetable) 0 (pages (s1.kernel.proc i).sz) q := by
    intro q
    have hsplit := mappedIn_split (leafAt x.kmem (s1.kernel.proc j).pagetable) 0
      (pages (s1.kernel.proc i).sz) (USERTOP - pages (s1.kernel.proc i).sz) q
    have hrest : mappedIn (leafAt x.kmem (s1.kernel.proc j).pagetable)
        (0 + pages (s1.kernel.proc i).sz) (USERTOP - pages (s1.kernel.proc i).sz) q = 0 := by
      refine mappedIn_eq_zero _ q ?_
      intro v h1 h2
      rw [hcopied.kept v (by omega) (by omega)]
      exact hempty v (by omega)
    have hsum : pages (s1.kernel.proc i).sz + (USERTOP - pages (s1.kernel.proc i).sz) =
      USERTOP := by
      omega
    rw [hsum, hrest, Nat.add_zero] at hsplit
    exact hsplit
  have hnew : forall q, memUse s'.kernel.kmem (s'.kernel.proc j) q =
      nodes x.kmem (s1.kernel.proc j).pagetable q +
        mappedIn (leafAt x.kmem (s1.kernel.proc j).pagetable) 0 (pages (s1.kernel.proc i).sz) q +
        one (s1.kernel.proc j).trapframe q := by
    intro q
    rw [h.memUse_eq, h.kmem_eq]
    unfold memUse use
    rw [if_neg hlive.pagetable_ne, if_neg hlive.trapframe_ne, hargv, List.count_nil, hmapped q,
      Nat.add_zero]
  have hheld : memUse s'.kernel.kmem (s'.kernel.proc j) (s1.kernel.proc j).trapframe ≠ 0 := by
    rw [hnew, one_self]
    omega
  have hcopy : Moves s1.ram x (memUse s1.kernel.kmem (s1.kernel.proc j))
      (memUse s'.kernel.kmem (s'.kernel.proc j)) :=
    (hcopied.moves.add (one (s1.kernel.proc j).trapframe)).congr
      (memUse_bare hlive.pagetable_ne hlive.trapframe_ne hargv s1.kernel.kmem hempty) hnew
  have hstores := (hmoves.trans hcopy).trans ((Moves.store hheld 0 TRAPFRAMESIZE
    (x.data (s1.kernel.proc i).trapframe)).trans (Moves.store hheld A0 8 fun _ => 0))
  rw [← h.ram_eq] at hstores
  exact hstores

theorem Child.live (hsz : (s1.kernel.proc i).sz <= TRAPFRAME)
    (hfresh : Fresh s.kernel s1.kernel j 0)
    (hcopied : Copied s1.ram x (s1.kernel.proc i).pagetable (s1.kernel.proc j).pagetable 0
      (pages (s1.kernel.proc i).sz)) :
    Live s'.kernel.kmem s'.kernel.trampoline (s'.kernel.proc j) := by
  have hlive := hfresh.live
  have hspace := hlive.space
  have hbound := pages_le hsz
  have htop := USERTOP_le
  have hkept : forall v, v < VPNS -> pages (s1.kernel.proc i).sz <= v ->
      leafAt x.kmem (s1.kernel.proc j).pagetable v =
        leafAt s1.kernel.kmem (s1.kernel.proc j).pagetable v :=
    fun v hv hge => hcopied.kept v hv (by omega)
  refine ⟨?_, ?_, ?_, ?_⟩
  · rw [h.trapframe_eq]
    exact hlive.trapframe_ne
  · rw [h.pagetable_eq]
    exact hlive.pagetable_ne
  · rw [h.sz_eq]
    exact hsz
  · rw [h.kmem_eq, h.trampoline_eq, h.trapframe_eq, h.pagetable_eq, h.sz_eq]
    refine ⟨hcopied.inner, hbound, ?_, ?_, ?_⟩
    · rw [hkept _ (by omega) (by omega)]
      exact hspace.trampoline_eq
    · rw [hkept _ (by omega) hbound]
      exact hspace.trapframe_eq
    · intro v hv hge htf htr
      have hsz0 : (s1.kernel.proc j).sz = 0 := by
        rw [hfresh.proc_eq]
      have hpages : pages (s1.kernel.proc j).sz = 0 := by
        rw [hsz0]
        rfl
      rw [hkept v hv hge]
      exact hspace.rest v hv (by omega) htf htr

theorem Child.owned (howned : Owned lo s.kernel.kmem s.kernel.trampoline s.kernel.proc extra)
    (hfresh : Fresh s.kernel s1.kernel j 0)
    (hmoves : Moves s.ram s'.ram (fun _ => 0) (memUse s'.kernel.kmem (s'.kernel.proc j)))
    (hlive : Live s'.kernel.kmem s'.kernel.trampoline (s'.kernel.proc j)) :
    Owned lo s'.kernel.kmem s'.kernel.trampoline s'.kernel.proc extra := by
  have htramp : s'.kernel.trampoline = s.kernel.trampoline := by
    rw [h.trampoline_eq, hfresh.eq]
    rfl
  have hproc : s'.kernel.proc = update s.kernel.proc j (s'.kernel.proc j) := by
    funext k
    by_cases hk : k = j
    · rw [hk, update_self]
    · rw [update_of_ne hk, h.proc_ne k hk, hfresh.proc_ne hk]
  rw [htramp] at hlive ⊢
  rw [hproc]
  refine howned.fill hfresh.lt hfresh.unused hmoves.conserve hlive ?_
  rw [h.state_eq]
  decide

theorem Child.registers (k : Nat) (hk : k < TRAPFRAMESIZE) :
    s'.data (s'.kernel.proc j).trapframe k =
      if A0 <= k ∧ k < A0 + 8 then 0 else x.data (s1.kernel.proc i).trapframe k := by
  have hdata : s'.data = _ := congrArg Ram.data h.ram_eq
  rw [hdata, h.trapframe_eq]
  unfold Ram.store
  dsimp only
  rw [update_self, update_self]
  by_cases ha0 : A0 <= k ∧ k < A0 + 8
  · rw [if_pos ha0, if_pos ha0]
  · rw [if_neg ha0, if_neg ha0, if_pos ⟨Nat.zero_le k, by omega⟩, Nat.sub_zero]

theorem Child.data_eq {q : Page}
    (hq : q ≠ (s1.kernel.proc j).trapframe) : s'.data q = x.data q := by
  have hdata : s'.data = _ := congrArg Ram.data h.ram_eq
  rw [hdata]
  unfold Ram.store
  dsimp only
  rw [update_of_ne hq, update_of_ne hq]

end

theorem kfork_forked (howned : Owned lo s.kernel.kmem s.kernel.trampoline s.kernel.proc extra)
    (htramp : s.kernel.trampoline < lo) (hi : i < NPROC)
    (hactive : (s.kernel.proc i).state ≠ .unused) (hrun : s.kfork i = .ok (s', some j)) :
    ForkCopy s s' i j ∧ Owned lo s'.kernel.kmem s'.kernel.trampoline s'.kernel.proc extra := by
  have hspare : Spare s.kernel := howned.spare
  have hholder := howned.holder hi hactive
  have hlive := (howned.wf i hi).live hactive
  rcases allocproc_moves hspare with ⟨s1, np, halloc, _, hsome⟩
  have hne : forall s2, s.allocproc = .ok (s2, some j) -> i ≠ j := by
    intro s2 heq
    rw [halloc] at heq
    cases heq
    exact (hsome j rfl).1.ne hactive
  rcases kfork_child hne hrun with ⟨s2, x, h⟩
  have hij := hne s2 h.alloc
  have heq := h.alloc
  rw [halloc] at heq
  cases heq
  rcases hsome j rfl with ⟨hfresh, hmoves, hnumbered⟩
  have hproc := hfresh.proc_ne hij
  have hsz : (s1.kernel.proc i).sz <= TRAPFRAME := by
    rw [hproc]
    exact hlive.size_le
  have hcopying := Fresh.copying hholder hfresh
  have hcopied : Copied s1.ram x (s1.kernel.proc i).pagetable (s1.kernel.proc j).pagetable 0
      (pages (s1.kernel.proc i).sz) := by
    rw [← pagesBetween_zero hsz]
    exact (uvmcopyLoop_copied hcopying (by rw [Nat.zero_mul]; exact h.copy)).2
  have hempty : forall v, v < USERTOP ->
      (leafAt s1.kernel.kmem (s1.kernel.proc j).pagetable v).v = false :=
    fun v hv => hcopying.empty v (Nat.zero_le v) hv
  have hall := h.moves hsz hspare hfresh hmoves hempty hcopied
  have hlive' := h.live hsz hfresh hcopied
  have howned' := h.owned howned hfresh hall hlive'
  have hactive' : (s'.kernel.proc j).state ≠ .unused := by
    rw [h.state_eq]
    decide
  have hholder' := howned'.holder hfresh.lt hactive'
  have hkept : forall q, memUse s.kernel.kmem (s.kernel.proc i) q ≠ 0 -> s'.data q = s.data q := by
    intro q hq
    exact hall.data q (by rw [Nat.zero_add]; exact hholder.not_free hq)
  have hnotchild : forall q, memUse s.kernel.kmem (s.kernel.proc i) q ≠ 0 ->
      memUse s'.kernel.kmem (s'.kernel.proc j) q = 0 := by
    intro q hq
    have htotal := hall.conserve.total q
    have hnone : s.ram.kmem.free.count q = 0 := hholder.not_free hq
    omega
  have hsame : Same s.kernel.kmem s'.kernel.kmem (s.kernel.proc i).pagetable :=
    hall.conserve.same_of_take hholder.good hholder.nodes_le
  have hleaf1 : forall v, leafAt s1.ram.kmem (s1.kernel.proc i).pagetable v =
      leafAt s.kernel.kmem (s.kernel.proc i).pagetable v := by
    intro v
    rw [hproc]
    exact (hfresh.conserve.same_of_take hholder.good hholder.nodes_le).leaf_eq v
  have hpage : forall v, v * PGSIZE < (s.kernel.proc i).sz -> v < pages (s1.kernel.proc i).sz := by
    intro v hv
    rw [hproc] at hsz ⊢
    have hlt := vpn_lt_pages hv hsz
    rw [(page_addr v).2] at hlt
    exact hlt
  have hbound := pages_le hsz
  refine ⟨⟨?_, ?_, ?_, ?_, ?_⟩, howned'⟩
  · rw [h.sz_eq, hproc]
  · intro v hv hno
    rw [h.kmem_eq, h.pagetable_eq]
    refine hcopied.absent v (Nat.zero_le v) (by rw [Nat.zero_add]; exact hpage v hv) ?_
    rw [hleaf1 v]
    exact hno
  · intro v hv hyes
    have hlt := Nat.lt_of_lt_of_le (hpage v hv) hbound
    rcases hcopied.present v (Nat.zero_le v) (by rw [Nat.zero_add]; exact hpage v hv) (by
      rw [hleaf1 v]
      exact hyes) with ⟨pa, hfree, hleaf, hbytes⟩
    rw [hleaf1 v] at hleaf hbytes
    have hchild : leafAt s'.kernel.kmem (s'.kernel.proc j).pagetable v =
        (leafAt s.kernel.kmem (s.kernel.proc i).pagetable v).perm.pte pa := by
      rw [h.kmem_eq, h.pagetable_eq]
      exact hleaf
    have hvalid : (leafAt s'.kernel.kmem (s'.kernel.proc j).pagetable v).v = true := by
      rw [hchild]
      rfl
    have hppn : (leafAt s'.kernel.kmem (s'.kernel.proc j).pagetable v).ppn = pa := by
      rw [hchild]
      rfl
    have hheld := hholder.leaf_held hlt hyes
    have hheld' := hholder'.leaf_held hlt hvalid
    have htf := hholder'.leaf_ne_trapframe hlt hvalid
    have hsole := howned'.sole (by
      rw [h.trampoline_eq, hfresh.eq]
      exact htramp) hfresh.lt hactive' hlt hvalid
    rw [hppn] at hheld' htf hsole
    refine ⟨pa, hchild, ?_, ?_, hsole⟩
    · rw [h.trapframe_eq] at htf
      rw [h.data_eq htf, hbytes]
      exact hmoves.data _ (by rw [Nat.zero_add]; exact hholder.not_free hheld)
    · intro heq
      rw [heq] at hheld'
      exact hheld' (hnotchild _ hheld)
  · intro k hk
    have htf : (s.kernel.proc i).trapframe ≠ (s1.kernel.proc j).trapframe := by
      intro heq
      refine hholder'.trapframe_held ?_
      rw [h.trapframe_eq, ← heq]
      exact hnotchild _ hholder.trapframe_held
    rw [h.registers k hk, hproc, ← h.data_eq htf, hkept _ hholder.trapframe_held]
  · refine ⟨?_, ?_, ?_, ?_, ?_⟩
    · rw [h.proc_ne i hij, hproc]
    · rw [h.slot_ne i hij, hnumbered.slot, update_of_ne hij]
    · intro v _
      unfold bindings
      rw [hsame.leaf_eq v]
    · intro v hv hvalid
      exact hkept _ (hholder.leaf_held hv hvalid)
    · exact hkept _ hholder.trapframe_held

theorem fork_independent (howned : Owned lo s.kernel.kmem s.kernel.trampoline s.kernel.proc extra)
    (htramp : s.kernel.trampoline < lo) (hi : i < NPROC)
    (hactive : (s.kernel.proc i).state ≠ .unused) (hrun : s.kfork i = .ok (s', some j)) :
    ForkCopy s s' i j ∧ forall t a t' b, (acts s').ReachableVia (fun t a => a.Fits t) t ->
      a.Fits t -> (acts s').step t a t' -> b < NPROC -> b ≠ a.proc ->
      (t.kernel.proc b).state ≠ .unused -> Unseen t t' b := by
  rcases kfork_forked howned htramp hi hactive hrun with ⟨hforked, howned'⟩
  refine ⟨hforked, ?_⟩
  intro t a t' b hreach hfits hstep hb hne hother
  have ht := acts_owned howned' hreach
  rcases Act.alone ht hstep.1 hfits hstep.2 with ⟨hproc, _, halone⟩
  exact halone.unseen ht hproc hb hne hother

end

end

/-!
## A small machine
-/

instance (s : Machine) : (a : Act) -> Decidable (a.Enabled s)
  | .store i _ _ => inferInstanceAs (Decidable (i < NPROC ∧ (s.kernel.proc i).state = .runnable))
  | .fault i _ => inferInstanceAs (Decidable (i < NPROC ∧ (s.kernel.proc i).state = .runnable))
  | .sbrk i n _ => inferInstanceAs (Decidable ((i < NPROC ∧
      (s.kernel.proc i).state = .runnable) ∧ -(2 ^ 31) <= n ∧ n < 2 ^ 31))
  | .frame i off n _ => inferInstanceAs (Decidable ((i < NPROC ∧
      (s.kernel.proc i).state = .runnable) ∧ off + n <= TRAPFRAMESIZE))

def Act.next (s : Machine) (a : Act) : Option Machine :=
  if a.Enabled s then (a.run s).toOption else none

theorem Act.next_step {s0 s s' : Machine} {a : Act} (h : Act.next s a = some s') :
    (acts s0).step s a s' := by
  unfold Act.next at h
  split at h
  next henabled => exact ⟨henabled, toOption_eq_some.mp h⟩
  · cases h

/-- The parent has a page of program, a guard page, a stack, eager pages and two lazy ones, of which
it has touched one.  The child stores to the program. -/
theorem fork_independent_pages : exists s s' t : Machine, (s.kernel.proc 0).sz = 29576 ∧
    UserMapped s.kernel 0 0 ∧ UserMapped s.kernel 0 25000 ∧
    (leafAt s.kernel.kmem (s.kernel.proc 0).pagetable 1).v = true ∧ ¬ UserMapped s.kernel 0 4096 ∧
    (leafAt s.kernel.kmem (s.kernel.proc 0).pagetable 7).v = false ∧
    s.kfork 0 = .ok (s', some 1) ∧ ForkCopy s s' 0 1 ∧ (acts s').step s' (.store 1 100 5) t ∧
    t.sees 1 100 = some 5 ∧ t.sees 0 100 ≠ some 5 ∧ Unseen s' t 0 := by
  have hcheck : passes started (fun k => (System.run exec Fits k grown).any fun k =>
      passes (k.machine.kfork 0) fun a => (Act.next a.1 (.store 1 100 5)).any fun t =>
        decide (a.2 = some 1 ∧ ((k.proc 0).sz = 29576 ∧ UserMapped k 0 0 ∧
          UserMapped k 0 25000 ∧ (leafAt k.kmem (k.proc 0).pagetable 1).v = true ∧
          ¬ UserMapped k 0 4096 ∧ (leafAt k.kmem (k.proc 0).pagetable 7).v = false) ∧
          k.trampoline < 0x80022 ∧ (k.proc 0).state ≠ .unused ∧
          (a.1.kernel.proc 0).state ≠ .unused ∧
          t.sees 1 100 = some 5 ∧ t.sees 0 100 ≠ some 5)) = true := by
    decide +kernel
  obtain ⟨k0, hstart, hcheck⟩ := passes_eq_true.mp hcheck
  obtain ⟨k, hreach, hcheck⟩ := (started_reachable hstart).run_any (fun _ _ _ => exec_step) hcheck
  obtain ⟨⟨s', _⟩, hfork, hcheck⟩ := passes_eq_true.mp hcheck
  obtain ⟨t, hstep, hcheck⟩ := (Option.any_eq_true _ _).mp hcheck
  rcases of_decide_eq_true hcheck with
    ⟨rfl, ⟨hsz, hprogram, htouched, hguard, hnouser, hlazy⟩, htramp, hactive, hactive', hsees,
      hother⟩
  have howned : Owned smallBoot.kend k.machine.kernel.kmem k.machine.kernel.trampoline
      k.machine.kernel.proc _ := (reachable_sound hreach).owned
  have hindependent := fork_independent howned htramp (by decide) hactive hfork
  exact ⟨k.machine, s', t, hsz, hprogram, htouched, hguard, hnouser, hlazy, hfork,
    hindependent.1, Act.next_step hstep, hsees, hother,
    hindependent.2 s' (.store 1 100 5) t 0 (.init rfl) trivial (Act.next_step hstep) (by decide)
      (by decide) hactive'⟩

/-- The child's size passes the trapframe; one page less gives the trapframe to the free list, and
the parent takes it for a page of its own. -/
def overgrow : List Act :=
  List.replicate 128 (.sbrk 1 (2 ^ 31 - 4096) false) ++
    [.sbrk 1 (2 ^ 19 - 4096) false, .sbrk 0 4096 false, .sbrk 1 (-4096) false, .fault 0 0]

def oldSize : Act :=
  .frame 1 A0 8 fun k => UInt8.ofNat (TRAMPOLINE / 256 ^ k)

theorem return_seen_by_parent : exists s s' t t' : Machine, s.kfork 0 = .ok (s', some 1) ∧
    ForkCopy s s' 0 1 ∧ (acts s').Reachable t ∧ (acts s').step t oldSize t' ∧
    t.sees 0 113 = some 0 ∧ t'.sees 0 113 = some 0xf0 := by
  have hcheck : passes (userinit (tightBoot 12 (by decide)).kernel) (fun k =>
      passes (k.machine.kfork 0) fun a =>
        (System.run Act.next (fun _ _ => True) a.1 overgrow).any fun t =>
          (Act.next t oldSize).any fun t' => decide (a.2 = some 1 ∧
            (k.trampoline < 0x80022 ∧ (k.proc 0).state ≠ .unused) ∧ t.sees 0 113 = some 0 ∧
            t'.sees 0 113 = some 0xf0)) = true := by
    decide +kernel
  obtain ⟨k, hk, hcheck⟩ := passes_eq_true.mp hcheck
  obtain ⟨⟨s', _⟩, hfork, hcheck⟩ := passes_eq_true.mp hcheck
  have hinit : (acts s').Reachable s' := .init rfl
  obtain ⟨t, hreach, hcheck⟩ := hinit.run_any (fun _ _ _ => Act.next_step) hcheck
  obtain ⟨t', hlast, hcheck⟩ := (Option.any_eq_true _ _).mp hcheck
  rcases of_decide_eq_true hcheck with ⟨rfl, ⟨htramp, hactive⟩, hsees⟩
  have hreached : (system (tightBoot 12 (by decide))).ReachableVia Fits k := .init hk
  have howned : Owned (tightBoot 12 (by decide)).kend k.machine.kernel.kmem
      k.machine.kernel.trampoline k.machine.kernel.proc _ := (reachable_sound hreached).owned
  have hforked := (kfork_forked howned htramp (by decide) hactive hfork).1
  exact ⟨k.machine, s', t, t', hfork, hforked, hreach, Act.next_step hlast, hsees⟩

end Process
end Xv6
