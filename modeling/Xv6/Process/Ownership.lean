import Xv6.Process.ExecSpec
import Xv6.Process.Kernel

/-!
# Which process owns which page

A process holds its page table with the user memory mapped there, its trapframe,
and inside `sys_exec` the argument buffers.  Pages held outside the process table
are counted by `extra`.
-/

namespace Xv6
namespace Process

open Lib Vm

def memUse (m : Kmem) (p : Proc) (q : Page) : Nat :=
  (if p.pagetable = 0 then 0 else use m p.pagetable q) +
    (if p.trapframe = 0 then 0 else one p.trapframe q) + p.argv.count q

structure Live (m : Kmem) (trampoline : Page) (p : Proc) : Prop where
  trapframe_ne : p.trapframe ≠ 0
  pagetable_ne : p.pagetable ≠ 0
  size_le : p.sz <= TRAPFRAME
  space : Space m trampoline p.trapframe p.pagetable (pages p.sz)

structure Idle (p : Proc) : Prop where
  parent_eq : p.parent = none
  trapframe_eq : p.trapframe = 0
  pagetable_eq : p.pagetable = 0
  size_eq : p.sz = 0
  argv_eq : p.argv = []

structure WfProc (m : Kmem) (trampoline : Page) (p : Proc) : Prop where
  idle : p.state = .unused -> Idle p
  live : p.state ≠ .unused -> Live m trampoline p

/-- Every managed page, from `lo` on, is free or held exactly once. -/
structure Owned (lo : Page) (m : Kmem) (trampoline : Page) (proc : Nat -> Proc)
    (extra : Page -> Nat) : Prop where
  ram : KERNBASE / PGSIZE <= lo
  kend_eq : m.kend = lo
  total : forall q, (∑ i ∈ Finset.range NPROC, memUse m (proc i) q) + extra q +
    m.free.count q = if Managed m q then 1 else 0
  wf : forall i, i < NPROC -> WfProc m trampoline (proc i)

/-!
## Frame

An operation on the pages `X` leaves a process alone that holds other pages.
-/

section Frame

variable {m m' : Kmem} {trampoline : Page} {X X' Y : Page -> Nat}

theorem memUse_frame (h : Conserve m m' X X') (hgood : Good m (fun q => X q + Y q))
    {p : Proc} (hp : forall q, memUse m p q <= Y q) (q : Page) :
    memUse m' p q = memUse m p q := by
  unfold memUse
  by_cases hpt : p.pagetable = 0
  · rw [if_pos hpt, if_pos hpt]
  · have hsame : Same m m' p.pagetable := by
      apply h.same_of_good hgood
      intro a
      have hle := hp a
      have hnodes := nodes_le_use m p.pagetable a
      unfold memUse at hle
      rw [if_neg hpt] at hle
      omega
    rw [if_neg hpt, if_neg hpt, hsame.use_eq q]

theorem WfProc.frame {p : Proc} (hwf : WfProc m trampoline p) (h : Conserve m m' X X')
    (hgood : Good m (fun q => X q + Y q)) (hp : forall q, memUse m p q <= Y q) :
    WfProc m' trampoline p := by
  refine { idle := hwf.idle, live := fun hstate => ?_ }
  have hlive := hwf.live hstate
  refine
    { trapframe_ne := hlive.trapframe_ne
      pagetable_ne := hlive.pagetable_ne
      size_le := hlive.size_le
      space := hlive.space.same (h.same_of_good hgood (fun a => ?_)) }
  have hle := hp a
  have hnodes := nodes_le_use m p.pagetable a
  unfold memUse at hle
  rw [if_neg hlive.pagetable_ne] at hle
  omega

end Frame

section Owned

variable {lo : Page} {m m' : Kmem} {trampoline : Page} {proc : Nat -> Proc}
  {extra : Page -> Nat}

theorem Owned.ram_le (h : Owned lo m trampoline proc extra) : KERNBASE / PGSIZE <= m.kend := by
  rw [h.kend_eq]
  exact h.ram

def others (m : Kmem) (proc : Nat -> Proc) (i : Nat) (q : Page) : Nat :=
  ∑ j ∈ (Finset.range NPROC).erase i, memUse m (proc j) q

theorem sum_memUse (m : Kmem) (proc : Nat -> Proc) {i : Nat} (hi : i < NPROC) (q : Page) :
    (∑ j ∈ Finset.range NPROC, memUse m (proc j) q) =
      memUse m (proc i) q + others m proc i q :=
  (Finset.add_sum_erase _ (fun j => memUse m (proc j) q) (Finset.mem_range.mpr hi)).symm

theorem memUse_le_others (m : Kmem) (proc : Nat -> Proc) {i j : Nat} (hj : j < NPROC)
    (hij : j ≠ i) (q : Page) : memUse m (proc j) q <= others m proc i q :=
  Finset.single_le_sum (f := fun j => memUse m (proc j) q) (fun _ _ => Nat.zero_le _)
    (Finset.mem_erase.mpr ⟨hij, Finset.mem_range.mpr hj⟩)

section

variable (h : Owned lo m trampoline proc extra)
include h

theorem Owned.good :
    Good m (fun q => (∑ i ∈ Finset.range NPROC, memUse m (proc i) q) + extra q) := by
  constructor
  · intro q
    rw [h.total q]
    split <;> omega
  · intro q hq
    rw [h.total q] at hq
    by_contra hnot
    rw [if_neg hnot] at hq
    exact hq rfl

theorem Owned.good_proc {i : Nat} (hi : i < NPROC) :
    Good m (fun q => memUse m (proc i) q + (others m proc i q + extra q)) := by
  apply h.good.mono
  intro q
  rw [sum_memUse m proc hi q]
  omega

theorem Owned.update {i : Nat} (hi : i < NPROC) {p' : Proc}
    (hcons : Conserve m m' (memUse m (proc i)) (memUse m' p')) (hwf : WfProc m' trampoline p') :
    Owned lo m' trampoline (Function.update proc i p') extra := by
  have hgood := h.good_proc hi
  have hother : forall j, j < NPROC -> j ≠ i -> forall q,
      memUse m (proc j) q <= others m proc i q + extra q := by
    intro j hj hij q
    have hle := memUse_le_others m proc hj hij q
    omega
  refine { ram := h.ram, kend_eq := hcons.kend_eq.trans h.kend_eq, total := ?_, wf := ?_ }
  · intro q
    have hothers : others m' (Function.update proc i p') i q = others m proc i q := by
      apply Finset.sum_congr rfl
      intro j hj
      rcases Finset.mem_erase.mp hj with ⟨hij, hmem⟩
      rw [Function.update_of_ne hij]
      exact memUse_frame hcons hgood (hother j (Finset.mem_range.mp hmem) hij) q
    have htotal := h.total q
    have hmoved := hcons.total q
    rw [sum_memUse m proc hi q] at htotal
    rw [sum_memUse m' _ hi q, hothers, Function.update_self,
      if_congr (hcons.managed_iff q) rfl rfl, ← htotal]
    omega
  · intro j hj
    by_cases hij : j = i
    · rw [hij, Function.update_self]
      exact hwf
    · rw [Function.update_of_ne hij]
      exact (h.wf j hj).frame hcons hgood (hother j hj hij)

theorem Owned.fill {j : Nat} (hj : j < NPROC) (hunused : (proc j).state = .unused) {p' : Proc}
    (hcons : Conserve m m' (fun _ => 0) (memUse m' p')) (hlive : Live m' trampoline p')
    (hstate : p'.state ≠ .unused) :
    Owned lo m' trampoline (Function.update proc j p') extra := by
  have hidle := (h.wf j hj).idle hunused
  have hnone : forall q, memUse m (proc j) q = 0 := by
    intro q
    unfold memUse
    rw [hidle.pagetable_eq, hidle.trapframe_eq, hidle.argv_eq]
    rfl
  exact h.update hj (hcons.congr hnone fun _ => rfl)
    { idle := fun hu => absurd hu hstate
      live := fun _ => hlive }

theorem Owned.update_extra {X X' rest extra' : Page -> Nat}
    (hcons : Conserve m m' X X') (hold : forall q, extra q = X q + rest q)
    (hnew : forall q, extra' q = X' q + rest q) :
    Owned lo m' trampoline proc extra' := by
  have hgood : Good m (fun q => X q +
      ((∑ i ∈ Finset.range NPROC, memUse m (proc i) q) + rest q)) := by
    apply h.good.mono
    intro q
    rw [hold q]
    omega
  have hle : forall i, i < NPROC -> forall q, memUse m (proc i) q <=
      (∑ i ∈ Finset.range NPROC, memUse m (proc i) q) + rest q := by
    intro i hi q
    rw [sum_memUse m proc hi q]
    omega
  refine { ram := h.ram, kend_eq := hcons.kend_eq.trans h.kend_eq, total := ?_, wf := ?_ }
  · intro q
    have hsum : (∑ i ∈ Finset.range NPROC, memUse m' (proc i) q) =
        ∑ i ∈ Finset.range NPROC, memUse m (proc i) q := by
      apply Finset.sum_congr rfl
      intro i hi
      exact memUse_frame hcons hgood (hle i (Finset.mem_range.mp hi)) q
    have htotal := h.total q
    have hmoved := hcons.total q
    rw [hsum, if_congr (hcons.managed_iff q) rfl rfl, ← htotal, hold q, hnew q]
    omega
  · intro i hi
    exact (h.wf i hi).frame hcons hgood (hle i hi)

end

end Owned

end Process
end Xv6
