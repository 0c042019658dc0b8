import Xv6.Process.Ownership

/-!
# Operations on the memory of one process

`sbrk`, page faults, `copyin`, `copyout` and `exec` change the pages of the calling
process only.
-/

namespace Xv6
namespace Process

open Lib Vm Function

structure Private (s s' : Kernel) (i : Nat) : Prop where
  eq : s' = { s with kmem := s'.kmem }.setProc i (s'.proc i)
  state_eq : (s'.proc i).state = (s.proc i).state
  parent_eq : (s'.proc i).parent = (s.proc i).parent
  ofile_eq : (s'.proc i).ofile = (s.proc i).ofile
  conserve : Conserve s.kmem s'.kmem (memUse s.kmem (s.proc i)) (memUse s'.kmem (s'.proc i))
  live : Live s'.kmem s'.trampoline (s'.proc i)

theorem setProc_self (s : Kernel) (i : Nat) : s.setProc i (s.proc i) = s := by
  unfold Kernel.setProc
  rw [update_eq_self]

theorem Private.wf {s s' : Kernel} {i : Nat} (h : Private s s' i)
    (hstate : (s.proc i).state ≠ .unused) : WfProc s'.kmem s'.trampoline (s'.proc i) :=
  { idle := fun hunused => absurd (h.state_eq.symm.trans hunused) hstate
    live := fun _ => h.live }

theorem Live.memUse_eq {m : Kmem} {trampoline : Page} {p : Proc} (h : Live m trampoline p)
    (q : Page) : memUse m p q = use m p.pagetable q + (one p.trapframe q + p.argv.count q) := by
  unfold memUse
  rw [if_neg h.pagetable_ne, if_neg h.trapframe_ne, Nat.add_assoc]

theorem table_ne_zero {m : Kmem} {r : Page} (hgood : Good m (use m r))
    (hram : KERNBASE / PGSIZE <= m.kend) : r ≠ 0 := by
  intro hzero
  have hself : 1 <= nodes m r r := sv39.uses_self m.entry 2 r
  have huse := nodes_le_use m r r
  rcases hgood.managed r (by omega) with ⟨hlo, _⟩
  rw [hzero] at hlo
  exact absurd (hram.trans hlo) (by decide)

section OneProcess

variable {s : Kernel} {i : Nat}

theorem Live.private (hlive : Live s.kmem s.trampoline (s.proc i)) (m' : Kmem) (np : MyProc)
    (hcons : Conserve s.kmem m' (use s.kmem (s.proc i).pagetable) (use m' np.pagetable))
    (hne : np.pagetable ≠ 0) (hsz : np.sz <= TRAPFRAME)
    (hspace : Space m' s.trampoline (s.proc i).trapframe np.pagetable (pages np.sz)) :
    Private s ({ s with kmem := m' }.setProc i
      { s.proc i with pagetable := np.pagetable, sz := np.sz }) i := by
  have hself : ({ s with kmem := m' }.setProc i
      { s.proc i with pagetable := np.pagetable, sz := np.sz }).proc i =
      { s.proc i with pagetable := np.pagetable, sz := np.sz } := update_self ..
  have hlive' : Live m' s.trampoline { s.proc i with pagetable := np.pagetable, sz := np.sz } :=
    { trapframe_ne := hlive.trapframe_ne
      pagetable_ne := hne
      size_le := hsz
      space := hspace }
  refine
    { eq := by rw [hself]; rfl
      state_eq := by rw [hself]
      parent_eq := by rw [hself]
      ofile_eq := by rw [hself]
      conserve := ?_
      live := by rw [hself]; exact hlive' }
  rw [hself]
  exact (hcons.add (fun q => one (s.proc i).trapframe q + (s.proc i).argv.count q)).congr
    hlive.memUse_eq hlive'.memUse_eq

theorem Live.faulted (hlive : Live s.kmem s.trampoline (s.proc i)) {m' : Kmem}
    (h : Faulted s.kmem m' (s.proc i).pagetable (pages (s.proc i).sz)) :
    Private s { s with kmem := m' } i := by
  have hprivate := hlive.private m' (s.myproc i) h.conserve hlive.pagetable_ne hlive.size_le
    (hlive.space.faulted h)
  have hself := setProc_self { s with kmem := m' } i
  exact hself ▸ hprivate

theorem Private.refl (hlive : Live s.kmem s.trampoline (s.proc i)) : Private s s i :=
  { eq := (setProc_self s i).symm
    state_eq := rfl
    parent_eq := rfl
    ofile_eq := rfl
    conserve := Conserve.refl _ _
    live := hlive }

theorem Private.trans {s' s'' : Kernel} (h : Private s s' i) (h' : Private s' s'' i) :
    Private s s'' i := by
  refine
    { eq := ?_
      state_eq := h'.state_eq.trans h.state_eq
      parent_eq := h'.parent_eq.trans h.parent_eq
      ofile_eq := h'.ofile_eq.trans h.ofile_eq
      conserve := h.conserve.trans h'.conserve
      live := h'.live }
  have h1 := h.eq
  have h2 := h'.eq
  rw [h1] at h2
  rw [h2]
  simp [Kernel.setProc]

/-!
## System calls
-/

section

variable (hlive : Live s.kmem s.trampoline (s.proc i))
  (hgood : Good s.kmem (memUse s.kmem (s.proc i)))
include hlive hgood

theorem Live.good_use :
    Good s.kmem (use s.kmem (s.proc i).pagetable) := by
  apply hgood.mono
  intro q
  rw [hlive.memUse_eq q]
  exact Nat.le_add_right _ _

theorem copyin_private (va len : Nat) :
    exists m' done, copyin s.kmem (s.myproc i) (s.proc i).pagetable va len = .ok (m', done) ∧
      Private s { s with kmem := m' } i := by
  rcases copyinLoop_spec hlive.size_le hlive.space.inner (hlive.good_use hgood) va len with
    ⟨m', done, hrun, hfault⟩
  exact ⟨m', done, hrun, hlive.faulted hfault⟩

theorem copyout_private (va len : Nat) :
    exists m' done, copyout s.kmem (s.myproc i) (s.proc i).pagetable va len = .ok (m', done) ∧
      Private s { s with kmem := m' } i := by
  rcases copyoutLoop_spec hlive.size_le hlive.space.inner (hlive.good_use hgood) va len with
    ⟨m', done, hrun, hfault⟩
  exact ⟨m', done, hrun, hlive.faulted hfault⟩

theorem vmfault_private (va : Nat) :
    exists m' res, vmfault s.kmem (s.myproc i) (s.proc i).pagetable va = .ok (m', res) ∧
      Private s { s with kmem := m' } i := by
  rcases vmfault_spec hlive.size_le hlive.space.inner (hlive.good_use hgood) va with
    ⟨m', res, hrun, hfault, _⟩
  exact ⟨m', res, hrun, hlive.faulted hfault⟩

end

/-- A growing `sbrk` ends below the trapframe, or it is eager and memory runs out
before it gets there. -/
def SbrkFits (s : Kernel) (i : Nat) (n : Int) (eager : Bool) : Prop :=
  0 < n -> (s.proc i).sz + n.toNat <= TRAPFRAME ∨
    eager = true ∧ pages (s.proc i).sz + s.kmem.free.length <= USERTOP

theorem addInt_of_le {a : Nat} {n : Int} (hn : 0 <= n) (h : a + n.toNat <= TRAPFRAME) :
    addInt a n = a + n.toNat := by
  unfold addInt
  rw [if_pos hn, Nat.mod_eq_of_lt (Nat.lt_of_le_of_lt h (by decide))]

theorem growproc_private (hlive : Live s.kmem s.trampoline (s.proc i))
    (hgood : Good s.kmem (memUse s.kmem (s.proc i))) {n : Int} (hfits : SbrkFits s i n true) :
    exists s' done, growproc s i n = .ok (s', done) ∧ Private s s' i := by
  have huse := hlive.good_use hgood
  unfold growproc
  dsimp only
  by_cases hpos : n > 0
  · rw [if_pos hpos]
    rcases uvmalloc_spec (addInt (s.proc i).sz n)
      { r := false, w := true, x := false, u := false } hlive.size_le hlive.space.inner huse
      (by
        rcases hfits hpos with hle | ⟨_, hfree⟩
        · left
          rw [addInt_of_le (by omega) hle]
          exact hle
        · exact Or.inr hfree)
      hlive.space.unmapped with ⟨m', sz, hrun, hcons, hinner, hcase⟩
    simp only [hrun, ok_bind]
    by_cases hzero : sz = 0
    · rw [if_pos hzero]
      refine ⟨{ s with kmem := m' }, false, rfl, ?_⟩
      have hspace : Space m' s.trampoline (s.proc i).trapframe (s.proc i).pagetable
          (pages (s.proc i).sz) := by
        rcases hcase with ⟨hlt, heq, hm⟩ | ⟨hle, htf, heq, hgrown⟩ | ⟨_, hres⟩
        · omega
        · have hsz0 : (s.proc i).sz = 0 := by omega
          rw [← heq, hzero, hsz0] at hgrown
          rw [hsz0]
          have hspace0 := hlive.space
          rw [hsz0] at hspace0
          exact hspace0.grown hinner hgrown
        · exact hlive.space.restored hinner hres
      have hprivate := hlive.private m' (s.myproc i) hcons hlive.pagetable_ne hlive.size_le
        hspace
      exact setProc_self { s with kmem := m' } i ▸ hprivate
    · rw [if_neg hzero]
      refine ⟨_, true, rfl, hlive.private m' { pagetable := (s.proc i).pagetable, sz := sz }
        hcons hlive.pagetable_ne ?_ ?_⟩
      · rcases hcase with ⟨_, heq, _⟩ | ⟨_, htf, heq, _⟩ | ⟨heq, _⟩
        · rw [heq]
          exact hlive.size_le
        · rw [heq]
          exact htf
        · exact absurd heq hzero
      · rcases hcase with ⟨_, heq, hm⟩ | ⟨hle, htf, heq, hgrown⟩ | ⟨heq, _⟩
        · rw [heq, hm]
          exact hlive.space
        · have hspace := hlive.space.grown hinner hgrown
          rw [Nat.add_sub_cancel' (pages_mono hle htf)] at hspace
          rw [heq]
          exact hspace
        · exact absurd heq hzero
  · rw [if_neg hpos]
    by_cases hneg : n < 0
    · rw [if_pos hneg]
      rcases uvmdealloc_spec (addInt (s.proc i).sz n) hlive.size_le hlive.space.inner huse with
        ⟨m', hrun, hde⟩
      simp only [hrun, ok_bind]
      refine ⟨_, true, rfl, hlive.private m'
        { pagetable := (s.proc i).pagetable
          sz := min (s.proc i).sz (addInt (s.proc i).sz n) }
        hde.conserve hlive.pagetable_ne ((Nat.min_le_left _ _).trans hlive.size_le) ?_⟩
      exact hlive.space.dealloc hde (pages_mono (Nat.min_le_left _ _) hlive.size_le)
    · rw [if_neg hneg, setProc_self]
      exact ⟨s, true, rfl, Private.refl hlive⟩

theorem sysSbrk_private (hlive : Live s.kmem s.trampoline (s.proc i))
    (hgood : Good s.kmem (memUse s.kmem (s.proc i))) {n : Int} {eager : Bool}
    (hfits : SbrkFits s i n eager) :
    exists s' done, sysSbrk s i n eager = .ok (s', done) ∧ Private s s' i := by
  unfold sysSbrk
  dsimp only
  by_cases hgrow : eager = true ∨ n < 0
  · rw [if_pos hgrow]
    apply growproc_private hlive hgood
    intro hpos
    rcases hgrow with heager | hneg
    · rw [heager] at hfits
      exact hfits hpos
    · omega
  · rw [if_neg hgrow]
    have heager : eager ≠ true := fun h => hgrow (Or.inl h)
    have hn : 0 <= n := by
      have hnot : ¬ n < 0 := fun h => hgrow (Or.inr h)
      omega
    have hsum : (s.proc i).sz + n.toNat <= TRAPFRAME := by
      by_cases hzero : n = 0
      · rw [hzero]
        exact hlive.size_le
      · rcases hfits (by omega) with hle | ⟨h, _⟩
        · exact hle
        · exact absurd h heager
    rw [addInt_of_le hn hsum, if_neg (Nat.not_lt.mpr (Nat.le_add_right _ _))]
    refine ⟨_, true, rfl, hlive.private s.kmem
      { pagetable := (s.proc i).pagetable, sz := (s.proc i).sz + n.toNat }
      (Conserve.refl _ _) hlive.pagetable_ne hsum ?_⟩
    have hmono := pages_mono (Nat.le_add_right (s.proc i).sz n.toNat) hsum
    exact hlive.space.of_leaves _ hlive.space.inner (pages_le hsum)
      (fun v h1 h2 => hlive.space.unmapped v (hmono.trans h1) h2) (fun _ _ _ => rfl)

/-!
## The argument buffers of `exec`
-/

theorem freeArgv_spec {m : Kmem} {argv : List Page} {X : Page -> Nat}
    (hgood : Good m (fun q => X q + argv.count q)) :
    exists m', freeArgv m argv = .ok m' ∧
      Conserve m m' (fun q => X q + argv.count q) X := by
  unfold freeArgv
  induction argv generalizing m with
  | nil => exact ⟨m, rfl, Conserve.refl m _⟩
  | cons pg argv ih =>
    have hsplit : forall q, X q + (pg :: argv).count q = X q + argv.count q + one pg q := by
      intro q
      rw [count_cons_one]
      omega
    rcases kfree_conserve (X := fun q => X q + argv.count q)
      (hgood.mono (fun q => by rw [hsplit q])) with ⟨m1, hrun, hcons⟩
    have hfirst := hcons.congr hsplit (fun _ => rfl)
    rcases ih (hgood.conserve hfirst) with ⟨m', hrest, hcons'⟩
    refine ⟨m', ?_, hfirst.trans hcons'⟩
    rw [List.foldlM_cons, hrun, ok_bind]
    exact hrest

section

variable (hlive : Live s.kmem s.trampoline (s.proc i))
include hlive

theorem Live.setArgv {m' : Kmem} {argv : List Page}
    (hcons : Conserve s.kmem m' (memUse s.kmem (s.proc i))
      (fun q => use s.kmem (s.proc i).pagetable q + one (s.proc i).trapframe q + argv.count q))
    (hsame : Same s.kmem m' (s.proc i).pagetable) :
    Private s ({ s with kmem := m' }.setProc i { s.proc i with argv := argv }) i := by
  have hself : ({ s with kmem := m' }.setProc i { s.proc i with argv := argv }).proc i =
      { s.proc i with argv := argv } := update_self ..
  have hlive' : Live m' s.trampoline { s.proc i with argv := argv } :=
    { trapframe_ne := hlive.trapframe_ne
      pagetable_ne := hlive.pagetable_ne
      size_le := hlive.size_le
      space := hlive.space.same hsame }
  refine
    { eq := by rw [hself]; rfl
      state_eq := by rw [hself]
      parent_eq := by rw [hself]
      ofile_eq := by rw [hself]
      conserve := ?_
      live := by rw [hself]; exact hlive' }
  rw [hself]
  apply hcons.congr (fun _ => rfl)
  intro q
  have heq := hlive'.memUse_eq q
  rw [hsame.use_eq q, ← Nat.add_assoc] at heq
  exact heq

section

variable (hgood : Good s.kmem (memUse s.kmem (s.proc i)))
include hgood

theorem freeArgv_private :
    exists m', freeArgv s.kmem (s.proc i).argv = .ok m' ∧
      Private s ({ s with kmem := m' }.setProc i { s.proc i with argv := [] }) i := by
  have hsplit : Good s.kmem (fun q => (s.proc i).argv.count q +
      (use s.kmem (s.proc i).pagetable q + one (s.proc i).trapframe q)) := by
    apply hgood.mono
    intro q
    rw [hlive.memUse_eq q]
    omega
  rcases freeArgv_spec (X := fun _ => 0) (hsplit.mono (fun q => by
    rw [Nat.zero_add]
    exact Nat.le_add_right _ _)) with ⟨m', hrun, hcons⟩
  have hargv := hcons.congr (Y := fun q => (s.proc i).argv.count q)
    (fun q => (Nat.zero_add _).symm) (fun _ => rfl)
  refine ⟨m', hrun, hlive.setArgv ?_ (hargv.same_of_good hsplit (fun a =>
    (nodes_le_use s.kmem (s.proc i).pagetable a).trans (Nat.le_add_right _ _)))⟩
  apply (hargv.add (fun q => use s.kmem (s.proc i).pagetable q + one (s.proc i).trapframe q)).congr
  · intro q
    rw [hlive.memUse_eq q]
    omega
  · intro q
    rw [List.count_nil, Nat.zero_add, Nat.add_zero]

theorem sysExecBad_private :
    exists s', sysExecBad s i = .ok s' ∧ Private s s' i := by
  rcases freeArgv_private hlive hgood with ⟨m', hrun, hprivate⟩
  unfold sysExecBad
  rw [hrun]
  exact ⟨_, rfl, hprivate⟩

theorem sysExecArg_private :
    exists s', sysExecArg s i = .ok s' ∧ Private s s' i := by
  unfold sysExecArg
  by_cases hmax : (s.proc i).argv.length >= MAXARG
  · rw [if_pos hmax]
    exact sysExecBad_private hlive hgood
  · rw [if_neg hmax]
    cases halloc : kalloc s.kmem with
    | none => exact sysExecBad_private hlive hgood
    | some taken =>
      rcases taken with ⟨pg, m'⟩
      refine ⟨_, rfl, hlive.setArgv ?_ ?_⟩
      · apply (kalloc_conserve halloc (memUse s.kmem (s.proc i))).left.congr (fun _ => rfl)
        intro q
        rw [hlive.memUse_eq q, List.count_append, count_cons_one, List.count_nil]
        omega
      · exact (kalloc_conserve halloc (fun _ => 0)).left.same_of_good
          (hgood.mono (fun q => by rw [Nat.zero_add])) (fun a => by
            have hnodes := nodes_le_use s.kmem (s.proc i).pagetable a
            rw [hlive.memUse_eq a]
            omega)

theorem sysExec_private
    (hram : KERNBASE / PGSIZE <= s.kmem.kend) (file : Option Readi) {args : List Nat}
    (hargs : forall len, len ∈ args -> len < PGSIZE) :
    exists s' done, sysExec s i file args = .ok (s', done) ∧ Private s s' i := by
  have huse := hlive.good_use hgood
  have hshort : forall len, len ∈ args -> len < 2 ^ 31 := fun len hmem =>
    (hargs len hmem).trans (by decide)
  rcases kexec_spec (p := s.myproc i) file hshort hlive.size_le hlive.space huse with
    ⟨m1, res, hrun, hnone, hsome⟩
  have hspace : exists np : MyProc, np = res.getD (s.myproc i) ∧
      Private s ({ s with kmem := m1 }.setProc i
        { s.proc i with pagetable := np.pagetable, sz := np.sz }) i := by
    cases res with
    | none =>
      have hcons := hnone rfl
      have hsame : Same s.kmem m1 (s.proc i).pagetable :=
        hcons.same_of_good (huse.mono (fun q => by rw [Nat.zero_add]))
          (nodes_le_use s.kmem (s.proc i).pagetable)
      refine ⟨s.myproc i, rfl, hlive.private m1 (s.myproc i) ?_ hlive.pagetable_ne
        hlive.size_le (hlive.space.same hsame)⟩
      exact (hcons.add (use s.kmem (s.proc i).pagetable)).congr
        (fun q => (Nat.zero_add _).symm)
        (fun q => (hsame.use_eq q).trans (Nat.zero_add _).symm)
    | some np =>
      rcases hsome np rfl with ⟨hcons, hsz, hsp⟩
      have hne : np.pagetable ≠ 0 :=
        table_ne_zero (huse.conserve hcons) (by rw [hcons.kend_eq]; exact hram)
      exact ⟨np, rfl, hlive.private m1 np hcons hne hsz hsp⟩
  rcases hspace with ⟨np, hnp, hprivate⟩
  have hself : ({ s with kmem := m1 }.setProc i
      { s.proc i with pagetable := np.pagetable, sz := np.sz }).proc i =
      { s.proc i with pagetable := np.pagetable, sz := np.sz } := update_self ..
  rcases freeArgv_private hprivate.live (hgood.conserve hprivate.conserve) with
    ⟨m2, hfree, hprivate2⟩
  rw [hself] at hfree hprivate2
  have hboth := hprivate.trans hprivate2
  unfold sysExec
  simp only [hrun, ok_bind]
  rw [show freeArgv m1 (s.proc i).argv = .ok m2 from hfree]
  simp only [ok_bind]
  cases res with
  | none =>
    refine ⟨_, false, rfl, ?_⟩
    subst hnp
    simpa [Kernel.setProc, Kernel.myproc] using hboth
  | some x =>
    refine ⟨_, true, rfl, ?_⟩
    cases hnp
    simpa [Kernel.setProc] using hboth

end

end

end OneProcess

end Process
end Xv6
