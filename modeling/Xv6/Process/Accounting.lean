import Xv6.Process.Bounds

/-!
# Every page is in one place

The places of a page are the free list, the processes, the pipes and what the kernel
keeps for itself.  As long as no growing `sbrk` passes the trapframe, every managed
page is in exactly one of them, and a child that has been reaped leaves no trace.
-/

namespace Xv6
namespace Process

open Lib Vm

def places (kept : Reserve) (s : Kernel) (q : Page) : Nat :=
  s.kmem.free.count q + (∑ i ∈ Finset.range NPROC, memUse s.kmem (s.proc i) q) +
    pipeUse s.file q + kept.pages.count q

section

variable {kept : Reserve} {s s1 s2 s3 : Kernel} {i j : Nat}

theorem Sound.places_eq (h : Sound kept (fun _ => 0) s) (q : Page) :
    places kept s q = if kept.kend <= q ∧ q < PHYSTOP / PGSIZE then 1 else 0 := by
  have htotal := h.owned.total q
  have hmanaged : Managed s.kmem q <-> kept.kend <= q ∧ q < PHYSTOP / PGSIZE := by
    unfold Managed
    rw [h.owned.kend_eq]
  rw [if_congr hmanaged rfl rfl] at htotal
  unfold places
  omega

theorem kalloc_mem {m m' : Kmem} {q : Page} (h : kalloc m = some (q, m')) :
    0 < m.free.count q := by
  unfold kalloc at h
  cases hfree : m.free with
  | nil =>
    rw [hfree] at h
    cases h
  | cons r l =>
    rw [hfree] at h
    cases h
    rw [List.count_cons_self]
    exact Nat.succ_pos _

/-!
## A child that comes and goes
-/

theorem Sound.memUse_other {pend : Nat -> Nat} (h : Sound kept pend s) (hi : i < NPROC)
    (hj : j < NPROC) (hij : i ≠ j) {m' : Kmem} {X' : Page -> Nat}
    (hcons : Conserve s.kmem m' (memUse s.kmem (s.proc j)) X') (q : Page) :
    memUse m' (s.proc i) q = memUse s.kmem (s.proc i) q :=
  memUse_frame hcons (h.owned.good_proc hj)
    (fun a => (memUse_le_others s.kmem s.proc hi hij a).trans (Nat.le_add_right _ _)) q

theorem kexit_ne_init {s' : Kernel} (h : kexit s i = .ok s') : i ≠ s.initproc := by
  intro heq
  unfold kexit at h
  rw [if_pos heq] at h
  cases h

theorem own_run {b : Boot} (h : Sound kept (fun _ => 0) s1) (hj : j < NPROC) (ha : Active s1 j)
    (hrun : ((system b).restart s1).ReachableVia (fun s l => Fits s l ∧ l.Own j) s2) :
    exists t, Private s1 t j ∧ (s2 = t ∨ (t.proc j).argv = [] ∧ kexit t j = .ok s2) := by
  induction hrun with
  | init heq =>
    cases heq
    exact ⟨s1, Private.refl (h.live hj ha), Or.inl rfl⟩
  | step hreach hok hstep ih =>
    rcases ih with ⟨t, hp, heq | ⟨hargv, hexit⟩⟩
    · cases heq
      rcases own_step (h.private hj ha hp) hok.right hstep.left hok.left with
        ⟨s', hrun, hp'⟩ | ⟨t', hp', hargv, hrun⟩
      · rw [hstep.right] at hrun
        cases hrun
        exact ⟨_, hp.trans hp', Or.inl rfl⟩
      · exact ⟨t', hp.trans hp', Or.inr ⟨hargv, hrun.symm.trans hstep.right⟩⟩
    · -- After the exit the process is a zombie and takes no step.
      rcases kexit_spec (h.private hj ha hp) hj (hp.active ha) hargv (kexit_ne_init hexit) with
        ⟨s', hrun, _, hexited⟩
      rw [hexit] at hrun
      cases hrun
      have hruns := (hstep.left.runs hok.right).right.right
      rw [hexited.state_eq j, if_pos rfl] at hruns
      cases hruns

theorem exit_after_fork (h : Sound kept (fun _ => 0) s) (hi : i < NPROC)
    (hf : Forked s s1 i j) (h1 : Sound kept (fun _ => 0) s1) {t : Kernel}
    (hp : Private s1 t j) (hargv : (t.proc j).argv = []) (hexit : kexit t j = .ok s2) :
    Sound kept (fun _ => 0) s2 ∧ s2.kmem = t.kmem ∧ Exited t s2 j := by
  have ha : Active s1 j := by
    unfold Active
    rw [hf.state_eq]
    decide
  rcases kexit_spec (h1.private hf.lt ha hp) hf.lt (hp.active ha) hargv (kexit_ne_init hexit) with
    ⟨s', hrun, h2, hexited⟩
  rw [hexit] at hrun
  cases hrun
  have hfile : t.file = s1.file := by rw [hp.eq]; rfl
  have hcount : forall f, fdCount (t.proc j).ofile f = fdCount (s.proc i).ofile f := by
    intro f
    rw [hp.ofile_eq]
    apply Finset.sum_congr rfl
    intro fd hfd
    rw [hf.ofile_eq fd (Finset.mem_range.mp hfd)]
  refine ⟨h2, (hexited.shared fun f => ?_).left, hexited⟩
  rw [hcount f, hfile, hf.file_eq f]
  by_cases hzero : fdCount (s.proc i).ofile f = 0
  · exact Or.inl hzero
  · -- The parent still has its own references.
    right
    rcases Finset.exists_ne_zero_of_sum_ne_zero hzero with ⟨fd, hfd, hne⟩
    have hof : (s.proc i).ofile fd = some f := by
      by_contra hnot
      exact hne (if_neg hnot)
    have hrefs := h.files.refs f (h.files.fds i hi fd (Finset.mem_range.mp hfd) f hof)
    have hle := fdCount_le_refCount s.proc hi f
    dsimp only
    omega

theorem Forked.proc_other (hf : Forked s s1 i j) {k : Nat} (hk : k ≠ j) :
    s1.proc k = s.proc k := by
  rw [hf.eq]
  exact Function.update_of_ne hk ..

theorem Forked.memUse_other (hf : Forked s s1 i j) (h : Sound kept (fun _ => 0) s)
    (hi : i < NPROC) (hij : i ≠ j) (q : Page) :
    memUse s1.kmem (s1.proc i) q = memUse s.kmem (s.proc i) q := by
  have hidle : memUse s.kmem (s.proc j) = fun _ => 0 := by
    funext a
    exact ((h.owned.wf j hf.lt).idle hf.unused).memUse_eq a
  have hcons := hf.conserve
  rw [← hidle] at hcons
  rw [hf.proc_other hij]
  exact h.memUse_other hi hf.lt hij hcons q

theorem Private.proc_other {s' : Kernel} {k : Nat} (hp : Private s s' i) (hk : k ≠ i) :
    s'.proc k = s.proc k := by
  rw [hp.eq]
  exact Function.update_of_ne hk ..

theorem reaped_child {b : Boot} (h : Sound kept (fun _ => 0) s) (hr : Runs s i)
    (hfork : kfork s i = .ok (s1, some j))
    (hrun : ((system b).restart s1).ReachableVia (fun s l => Fits s l ∧ l.Own j) s2)
    (hzombie : (s2.proc j).state = .zombie) {addr : Nat}
    (hwait : kwait s2 i addr = .ok (s3, some j)) (q : Page) :
    s3.kmem.free.count q + memUse s3.kmem (s3.proc i) q =
        s.kmem.free.count q + memUse s.kmem (s.proc i) q ∧
      (addr = 0 -> s3.kmem.free.count q = s.kmem.free.count q) := by
  have hi := hr.right.left
  rcases kfork_spec h hi hr.active with ⟨s', res, hrun1, h1, _, hforked⟩
  rw [hfork] at hrun1
  cases hrun1
  have hf := hforked j rfl
  have hij : i ≠ j := by
    intro heq
    have hunused := hf.unused
    rw [← heq] at hunused
    exact hr.active.left hunused
  have ha : Active s1 j := by
    unfold Active
    rw [hf.state_eq]
    decide
  rcases own_run h1 hf.lt ha hrun with ⟨t, hp, heq | ⟨hargv, hexit⟩⟩
  · cases heq
    exact absurd hzombie (hp.active ha).right
  rcases exit_after_fork h hi hf h1 hp hargv hexit with ⟨h2, hkmem, hexited⟩
  have hmem := hexited.mem_eq
  have hai : Active s2 i := by
    unfold Active
    rw [hexited.state_eq i, if_neg hij, hp.proc_other hij, hf.proc_other hij]
    exact hr.active
  rcases kwait_spec h2 hi hai addr with ⟨s'', res, hrun3, h3, hreaped⟩
  rw [hwait] at hrun3
  cases hrun3
  have hre := hreaped j rfl
  rcases hre.memory with ⟨m, hpi, hzero, hfreed⟩
  have hparent1 := hf.memUse_other h hi hij q
  have hparent2 : memUse s2.kmem (s2.proc i) q = memUse s1.kmem (s1.proc i) q := by
    rw [hmem, hkmem, hp.proc_other hij]
    exact h1.memUse_other hi hf.lt hij hp.conserve q
  have hparent3 : memUse s3.kmem (s3.proc i) q = memUse m (s2.proc i) q := by
    have hproc : s3.proc i = s2.proc i := by
      rw [hre.eq]
      exact Function.update_of_ne hij ..
    rw [hproc]
    exact (h2.private hi hai hpi).memUse_other hi hf.lt hij hfreed q
  have hchild : memUse m (s2.proc j) q = memUse s2.kmem (s2.proc j) q :=
    h2.memUse_other hf.lt hi hij.symm hpi.conserve q
  have hforktotal := hf.conserve.total q
  have hruntotal := hp.conserve.total q
  have hwaittotal := hpi.conserve.total q
  have hfreetotal := hfreed.total q
  rw [hmem s2.kmem j q, hkmem] at hchild
  dsimp only at hwaittotal
  rw [hkmem] at hwaittotal hparent2
  constructor
  · omega
  · intro hz
    have hm : m = t.kmem := (hzero hz).trans hkmem
    subst hm
    omega

end

theorem pages_owned_once {b : Boot} {s : Kernel} (h : (system b).ReachableVia Fits s) :
    (forall q, places b.reserve s q =
      if b.kend <= q ∧ q < PHYSTOP / PGSIZE then 1 else 0) ∧
    (forall q m', kalloc s.kmem = some (q, m') -> pipeUse s.file q = 0 ∧
      forall i, i < NPROC -> memUse s.kmem (s.proc i) q = 0) ∧
    (forall l e, Enabled s l -> Fits s l -> step s l = .error e ->
      e = .initExiting ∨ e = .exec) ∧
    forall i j addr s1 s2 s3, Runs s i -> kfork s i = .ok (s1, some j) ->
      ((system b).restart s1).ReachableVia (fun s l => Fits s l ∧ l.Own j) s2 ->
      (s2.proc j).state = .zombie -> kwait s2 i addr = .ok (s3, some j) ->
      forall q, s3.kmem.free.count q + memUse s3.kmem (s3.proc i) q =
          s.kmem.free.count q + memUse s.kmem (s.proc i) q ∧
        (addr = 0 -> s3.kmem.free.count q = s.kmem.free.count q) := by
  have hsound := reachable_sound h
  refine ⟨hsound.places_eq, ?_, ?_, ?_⟩
  · intro q m' halloc
    have hplaces := hsound.places_eq q
    have hfree := kalloc_mem halloc
    unfold places at hplaces
    refine ⟨by split at hplaces <;> omega, fun i hi => ?_⟩
    have hle := le_sum_range hi (fun i => memUse s.kmem (s.proc i) q)
    split at hplaces <;> omega
  · intro l e hen hfits he
    exact (step_keeps hsound hen hfits).error_cases he
  · intro i j addr s1 s2 s3 hr hfork hrun hzombie hwait q
    exact reaped_child hsound hr hfork hrun hzombie hwait q

def childCalls : List Label :=
  [.sbrk 1 4096 false, .fault 1 30000, .exit 1]

theorem pages_owned_once_reaped : exists s s1 s2 s3, (system smallBoot).ReachableVia Fits s ∧
    kfork s 0 = .ok (s1, some 1) ∧
    ((system smallBoot).restart s1).ReachableVia (fun s l => Fits s l ∧ l.Own 1) s2 ∧
    s1.kmem.free.head? ≠ s.kmem.free.head? ∧
    (s2.proc 1).state = .zombie ∧ kwait s2 0 0 = .ok (s3, some 1) ∧
    (forall q, places smallBoot.reserve s q =
      if smallBoot.kend <= q ∧ q < PHYSTOP / PGSIZE then 1 else 0) ∧
    forall q, s3.kmem.free.count q = s.kmem.free.count q := by
  have hcheck : passes started (fun s => (System.run exec Fits s grown).any fun s =>
      passes (kfork s 0) fun r => (System.run exec (fun s l => Fits s l ∧ l.Own 1) r.1
        childCalls).any fun s2 => passes (kwait s2 0 0) fun r3 =>
          decide (r.2 = some 1 ∧ r3.2 = some 1 ∧ (s2.proc 1).state = .zombie ∧ Runs s 0 ∧
            r.1.kmem.free.head? ≠ s.kmem.free.head?)) = true := by
    decide +kernel
  obtain ⟨s0, hstart, hcheck⟩ := passes_eq_true.mp hcheck
  obtain ⟨s, hreach, hcheck⟩ := (started_reachable hstart).run_any (fun _ _ _ => exec_step) hcheck
  obtain ⟨⟨s1, j⟩, hfork, hcheck⟩ := passes_eq_true.mp hcheck
  have hinit : ((system smallBoot).restart s1).ReachableVia (fun s l => Fits s l ∧ l.Own 1) s1 :=
    .init rfl
  obtain ⟨s2, hchild, hcheck⟩ := hinit.run_any (fun _ _ _ => exec_step (b := smallBoot)) hcheck
  obtain ⟨⟨s3, j'⟩, hwait, hcheck⟩ := passes_eq_true.mp hcheck
  rcases of_decide_eq_true hcheck with ⟨rfl, rfl, hzombie, hruns, hhead⟩
  rcases pages_owned_once hreach with ⟨hplaces, _, _, hbalance⟩
  exact ⟨s, s1, s2, s3, hreach, hfork, hchild, hhead, hzombie, hwait, hplaces,
    fun q => (hbalance 0 1 0 s1 s2 s3 hruns hfork hchild hzombie hwait q).2 rfl⟩

/-!
## A run that frees a trapframe
-/

theorem uvmunmap_trapframe {m : Kmem} {trampoline trapframe r : Page} {n : Nat}
    (h : Space m trampoline trapframe r n) (hmanaged : Managed m trapframe) :
    exists m', uvmunmap m r TRAPFRAME 1 true = .ok m' ∧ m'.free = trapframe :: m.free := by
  have hleaf := h.trapframe_eq
  rcases locate_of_valid (show (leafAt m r USERTOP).v = true by rw [hleaf]; rfl) with
    ⟨⟨p, k⟩, hloc⟩
  rw [leafAt_of_locate hloc] at hleaf
  have hfree : kfree m (m.entry p k).ppn =
      .ok { m.memset trapframe 1 with free := trapframe :: m.free } := by
    rw [hleaf]
    unfold kfree
    rw [if_neg (fun hout => hout.elim (Nat.not_lt.mpr hmanaged.left)
      (Nat.not_le.mpr hmanaged.right))]
    rfl
  have hdiv : TRAPFRAME / PGSIZE = USERTOP := by decide
  refine ⟨({ m.memset trapframe 1 with free := trapframe :: m.free } : Kmem).set p k Pte.zero,
    ?_, rfl⟩
  unfold uvmunmap
  rw [if_neg (by decide), uvmunmapLoop_clear (p := p) (i := k) (by decide)
    (by rw [hdiv]; exact hloc) (by rw [hleaf]; rfl) ((if_pos rfl).trans hfree)]
  rfl

theorem shrink_frees_trapframe {s : Kernel} {i : Nat} {trampoline : Page}
    (hlive : Live s.kmem trampoline (s.proc i)) (hmanaged : Managed s.kmem (s.proc i).trapframe) :
    exists m, m.free = (s.proc i).trapframe :: s.kmem.free ∧
      sysSbrk (withSize s i TRAMPOLINE) i (-4096) false =
        .ok ({ withSize s i TRAPFRAME with kmem := m }, true) := by
  rcases uvmunmap_trapframe hlive.space hmanaged with ⟨m, hrun, hfree⟩
  refine ⟨m, hfree, ?_⟩
  have hdealloc : uvmdealloc s.kmem (s.proc i).pagetable TRAMPOLINE
      (addInt TRAMPOLINE (-4096)) = .ok (m, TRAPFRAME) := by
    rw [show addInt TRAMPOLINE (-4096) = TRAPFRAME by decide]
    unfold uvmdealloc
    rw [if_neg (by decide), if_pos (by decide),
      show pgroundup TRAPFRAME = TRAPFRAME by decide,
      show viaInt ((pgroundup TRAMPOLINE - TRAPFRAME) / PGSIZE) = 1 by decide]
    simp only [hrun, ok_bind]
    rfl
  unfold sysSbrk
  rw [if_pos (Or.inr (by decide))]
  unfold growproc
  dsimp only
  rw [if_neg (by decide), if_pos (by decide), withSize_proc,
    show (withSize s i TRAMPOLINE).kmem = s.kmem from rfl]
  dsimp only
  simp only [hdealloc, ok_bind]
  have hstate : ({ withSize s i TRAMPOLINE with kmem := m } : Kernel).setProc i
      { s.proc i with sz := TRAPFRAME } = { withSize s i TRAPFRAME with kmem := m } := by
    simp [withSize, Kernel.setProc]
  exact congrArg (fun s => Except.ok (s, true)) hstate

theorem trapframe_freed_in_use : exists s i, (system smallBoot).Reachable s ∧ Runs s i ∧
    (kalloc s.kmem).map Prod.fst = some (s.proc i).trapframe ∧
    2 <= places smallBoot.reserve s (s.proc i).trapframe := by
  rcases reachable_started with ⟨s, hvia, hr, hargv⟩
  have hsound := reachable_sound hvia
  have hlive := hsound.live hr.right.left hr.active
  have hle : (s.proc 0).sz <= TRAPFRAME := hsound.size_le hr.right.left
  have hmanaged : Managed s.kmem (s.proc 0).trapframe := by
    apply (hsound.good hr.right.left).managed
    rw [hlive.memUse_eq, one_self]
    omega
  have htop : TRAPFRAME + PGSIZE = TRAMPOLINE := by decide
  have hsum : (s.proc 0).sz + (TRAMPOLINE - (s.proc 0).sz) = TRAMPOLINE :=
    Nat.add_sub_cancel' (by omega)
  have hgrown := reachable_lazy (hvia.mono fun _ _ _ => trivial) hr hargv
    (t := TRAMPOLINE - (s.proc 0).sz) (by rw [hsum]; decide)
  rw [hsum] at hgrown
  rcases shrink_frees_trapframe hlive hmanaged with ⟨m, hfree, hrun⟩
  have hshrunk : (system smallBoot).Reachable { withSize s 0 TRAPFRAME with kmem := m } := by
    apply System.ReachableVia.step (l := .sbrk 0 (-4096) false) hgrown trivial
    refine ⟨⟨withSize_runs hr _, ?_, by decide, by decide⟩, ?_⟩
    · rw [withSize_proc]
      exact hargv
    · rw [step, hrun]
      rfl
  have htrapframe : ((withSize s 0 TRAPFRAME).proc 0).trapframe = (s.proc 0).trapframe := by
    rw [withSize_proc]
  refine ⟨_, 0, hshrunk, withSize_runs hr _, ?_, ?_⟩
  · dsimp only
    rw [htrapframe, kalloc, hfree]
    rfl
  · dsimp only [places]
    rw [htrapframe, hfree, List.count_cons_self]
    have hle := le_sum_range hr.right.left
      (fun i => memUse m ((withSize s 0 TRAPFRAME).proc i) (s.proc 0).trapframe)
    have hmem : 1 <= memUse m ((withSize s 0 TRAPFRAME).proc 0) (s.proc 0).trapframe := by
      unfold memUse
      rw [htrapframe, if_neg hlive.trapframe_ne, one_self]
      omega
    omega

end Process
end Xv6
