import Xv6.Process.Machine

/-!
# The bound on address spaces

As long as no growing `sbrk` passes the trapframe, every address space ends below it,
and no step panics in `walk`, `mappages` or `freewalk`.  `sys_sbrk` does not check
this: a lazy `sbrk` only adds to `p->sz`.
-/

namespace Xv6
namespace Process

open Lib Vm

/-- The address is mapped with `PTE_U` in the page table of process `i`. -/
def UserMapped (s : Kernel) (i va : Nat) : Prop :=
  (leafAt s.kmem (s.proc i).pagetable (va / PGSIZE)).v = true ∧
    (leafAt s.kmem (s.proc i).pagetable (va / PGSIZE)).u = true

instance (s : Kernel) (i va : Nat) : Decidable (UserMapped s i va) :=
  inferInstanceAs (Decidable (_ ∧ _))

variable {s : Kernel}

theorem Sound.size_le {kept : Reserve} {pend : Nat -> Nat} {i : Nat}
    (h : Sound kept pend s) (hi : i < NPROC) : (s.proc i).sz <= TRAPFRAME := by
  have hwf := h.owned.wf i hi
  by_cases hstate : (s.proc i).state = .unused
  · rw [(hwf.idle hstate).size_eq]
    exact Nat.zero_le _
  · exact (hwf.live hstate).size_le

theorem Sound.mapped_lt {kept : Reserve} {pend : Nat -> Nat} {i va : Nat}
    (h : Sound kept pend s) (hi : i < NPROC) (hstate : (s.proc i).state ≠ .unused)
    (hva : va < VPNS * PGSIZE) (hmapped : UserMapped s i va) :
    va < pgroundup (s.proc i).sz := by
  have hvpn : va / PGSIZE < VPNS := (Nat.div_lt_iff_lt_mul (by decide)).mpr hva
  have hlt := ((h.owned.wf i hi).live hstate).space.user_lt hvpn hmapped.left hmapped.right
  rw [pgroundup_eq]
  exact (Nat.div_lt_iff_lt_mul (by decide)).mp hlt

theorem address_space_bounded {b : Boot} (h : (system b).ReachableVia Fits s) :
    (forall i, i < NPROC -> (s.proc i).sz <= TRAPFRAME ∧
      ((s.proc i).state ≠ .unused -> forall va, va < VPNS * PGSIZE -> UserMapped s i va ->
        va < pgroundup (s.proc i).sz)) ∧
    forall l e, Enabled s l -> Fits s l -> step s l = .error e ->
      e = .initExiting ∨ e = .exec := by
  have hsound := reachable_sound h
  constructor
  · intro i hi
    exact ⟨hsound.size_le hi, fun hstate va => hsound.mapped_lt hi hstate⟩
  · intro l e hen hfits he
    exact (step_keeps hsound hen hfits).error_cases he

/-!
## A run that passes the bound

A machine whose kernel ends at page `0x80022` and keeps 70 pages, and an executable with
one page of program.
-/

theorem count_range' (lo n q : Nat) :
    (List.range' lo n).count q = if lo <= q ∧ q < lo + n then 1 else 0 := by
  by_cases hq : lo <= q ∧ q < lo + n
  · rw [if_pos hq]
    exact List.count_eq_one_of_mem List.nodup_range' (List.mem_range'_1.mpr hq)
  · rw [if_neg hq]
    exact List.count_eq_zero_of_not_mem (fun hmem => hq (List.mem_range'_1.mp hmem))

theorem count_ranges (lo n k q : Nat) :
    (List.range' lo n).count q + (List.range' (lo + n) k).count q =
      if lo <= q ∧ q < lo + n + k then 1 else 0 := by
  rw [count_range', count_range']
  split_ifs <;> omega

def smallBoot : Boot :=
  { kend := 0x80022
    trampoline := 0x80007
    kept := List.range' 0x80022 70
    free := List.range' 0x80068 32664
    entry := fun _ _ => Pte.zero
    pipe := fun _ => { readopen := false, writeopen := false }
    ram := by decide
    once := count_ranges 0x80022 70 32664 }

/-- An ELF header and one program header: a `PT_LOAD` segment of one page at address 0. -/
def initImage : List UInt8 :=
  [0x7f, 0x45, 0x4c, 0x46] ++ List.replicate 28 0 ++ [64] ++ List.replicate 23 0 ++ [1] ++
    List.replicate 7 0 ++ [1, 0, 0, 0, 7, 0, 0, 0] ++ List.replicate 24 0 ++
    [16, 0, 0, 0, 0, 0, 0, 0] ++ [0, 16, 0, 0, 0, 0, 0, 0] ++ List.replicate 8 0

def initFile : Readi :=
  fun off n => (initImage.drop off).take n

def Boot.start (b : Boot) : Except Panic Kernel := do
  let s ← userinit b.kernel
  step s (.forkret (some initFile))

def started : Except Panic Kernel :=
  smallBoot.start

theorem started_runs : exists s, started = .ok s ∧ s.first = false ∧
    (s.proc 0).state = .runnable ∧ (s.proc 0).argv = [] := by
  have hcheck : passes started (fun s => decide (s.first = false ∧
      (s.proc 0).state = .runnable ∧ (s.proc 0).argv = [])) = true := by
    decide +kernel
  obtain ⟨s, hrun, hs⟩ := passes_eq_true.mp hcheck
  exact ⟨s, hrun, of_decide_eq_true hs⟩

theorem Boot.start_reachable {b : Boot} (h : b.start = .ok s) :
    (system b).ReachableVia Fits s := by
  rcases bind_eq_ok.mp h with ⟨s0, hinit, hstep⟩
  have hreach : (system b).ReachableVia Fits s0 := System.ReachableVia.init hinit
  exact System.ReachableVia.step (l := .forkret (some initFile)) hreach trivial
    ⟨(userinit_sound b hinit).right, hstep⟩

theorem started_reachable (h : started = .ok s) :
    (system smallBoot).ReachableVia Fits s :=
  smallBoot.start_reachable h

theorem reachable_started : exists s, (system smallBoot).ReachableVia Fits s ∧ Runs s 0 ∧
    (s.proc 0).argv = [] := by
  rcases started_runs with ⟨s, hrun, hfirst, hstate, hargv⟩
  exact ⟨s, started_reachable hrun, ⟨hfirst, by decide, hstate⟩, hargv⟩

/-- The first process grows its memory, eagerly and then lazily, and touches a page of it. -/
def grown : List Label :=
  [.sbrk 0 5000 true, .sbrk 0 8192 false, .fault 0 25000]

theorem address_space_bounded_grown : exists s, (system smallBoot).ReachableVia Fits s ∧
    (s.proc 0).sz = 29576 ∧ UserMapped s 0 25000 ∧
    ((forall i, i < NPROC -> (s.proc i).sz <= TRAPFRAME ∧
      ((s.proc i).state ≠ .unused -> forall va, va < VPNS * PGSIZE -> UserMapped s i va ->
        va < pgroundup (s.proc i).sz)) ∧
    forall l e, Enabled s l -> Fits s l -> step s l = .error e ->
      e = .initExiting ∨ e = .exec) := by
  have hcheck : passes started (fun s => (System.run exec Fits s grown).any fun s =>
      decide ((s.proc 0).sz = 29576 ∧ UserMapped s 0 25000)) = true := by
    decide +kernel
  obtain ⟨s0, hstart, hcheck⟩ := passes_eq_true.mp hcheck
  obtain ⟨s, hreach, hcheck⟩ := (started_reachable hstart).run_any (fun _ _ _ => exec_step) hcheck
  rcases of_decide_eq_true hcheck with ⟨hsz, hmapped⟩
  exact ⟨s, hreach, hsz, hmapped, address_space_bounded hreach⟩

section Lazy

variable {b : Boot} {s : Kernel} {i : Nat}

def withSize (s : Kernel) (i sz : Nat) : Kernel :=
  s.setProc i { s.proc i with sz := sz }

theorem withSize_runs (hr : Runs s i) (sz : Nat) : Runs (withSize s i sz) i := by
  refine ⟨hr.left, hr.right.left, ?_⟩
  unfold withSize
  rw [setProc_proc]
  exact hr.right.right

theorem withSize_proc (s : Kernel) (i sz : Nat) :
    (withSize s i sz).proc i = { s.proc i with sz := sz } :=
  setProc_proc ..

theorem withSize_withSize (s : Kernel) (i sz sz' : Nat) :
    withSize (withSize s i sz) i sz' = withSize s i sz' := by
  simp [withSize, Kernel.setProc]

theorem reachable_lazyStep (h : (system b).Reachable s) (hr : Runs s i)
    (hargv : (s.proc i).argv = []) {n : Nat} (hn : n < 2 ^ 31)
    (hbits : (s.proc i).sz + n < 2 ^ 64) :
    (system b).Reachable (withSize s i ((s.proc i).sz + n)) := by
  apply System.ReachableVia.step (l := .sbrk i n false) h trivial
  refine ⟨⟨hr, hargv, by omega, by omega⟩, ?_⟩
  have hadd : addInt (s.proc i).sz n = (s.proc i).sz + n := by
    unfold addInt
    rw [if_pos (by omega), Int.toNat_natCast, Nat.mod_eq_of_lt hbits]
  have hrun : sysSbrk s i n false = .ok (withSize s i ((s.proc i).sz + n), true) := by
    unfold sysSbrk
    dsimp only
    rw [if_neg (by simp), hadd, if_neg (by omega)]
    rfl
  rw [step, hrun]
  rfl

theorem reachable_lazy (h : (system b).Reachable s) (hr : Runs s i)
    (hargv : (s.proc i).argv = []) {t : Nat} (hbits : (s.proc i).sz + t < 2 ^ 64) :
    (system b).Reachable (withSize s i ((s.proc i).sz + t)) := by
  induction t using Nat.strong_induction_on generalizing s with
  | h t ih =>
    by_cases hsmall : t < 2 ^ 31
    · exact reachable_lazyStep h hr hargv hsmall hbits
    · have hfirst := reachable_lazyStep h hr hargv (n := 2 ^ 31 - 1) (by omega) (by omega)
      have hsz : ((withSize s i ((s.proc i).sz + (2 ^ 31 - 1))).proc i).sz =
          (s.proc i).sz + (2 ^ 31 - 1) := by
        rw [withSize_proc]
      have hnext := ih (t - (2 ^ 31 - 1)) (by omega) hfirst (withSize_runs hr _)
        (by rw [withSize_proc]; exact hargv) (by rw [hsz]; omega)
      rw [hsz, withSize_withSize] at hnext
      rw [show (s.proc i).sz + t = (s.proc i).sz + (2 ^ 31 - 1) + (t - (2 ^ 31 - 1)) by omega]
      exact hnext

theorem fault_maxva (hsz : MAXVA < (s.proc i).sz) : step s (.fault i MAXVA) = .error .walk := by
  have hwalk : ismapped s.kmem (s.proc i).pagetable (pgrounddown MAXVA) = .error .walk := by
    unfold ismapped walk
    rw [if_pos (by decide)]
    rfl
  have hfault : vmfault s.kmem (s.myproc i) (s.proc i).pagetable MAXVA = .error .walk := by
    unfold vmfault
    dsimp only
    rw [if_neg (show ¬ MAXVA >= (s.myproc i).sz from Nat.not_le.mpr hsz), hwalk]
    rfl
  rw [step, usertrapFault, hfault]
  rfl

end Lazy

theorem lazy_sbrk_passes_trapframe : exists s i, (system smallBoot).Reachable s ∧ i < NPROC ∧
    TRAPFRAME < (s.proc i).sz ∧ Enabled s (.fault i MAXVA) ∧
    step s (.fault i MAXVA) = .error .walk := by
  rcases reachable_started with ⟨s, hvia, hr, hargv⟩
  have hle : (s.proc 0).sz <= TRAPFRAME := (reachable_sound hvia).size_le (by decide)
  have htop : TRAPFRAME + PGSIZE + PGSIZE = MAXVA := by decide
  have hmax : MAXVA + PGSIZE < 2 ^ 64 := by decide
  have hsum : (s.proc 0).sz + (MAXVA + PGSIZE - (s.proc 0).sz) = MAXVA + PGSIZE :=
    Nat.add_sub_cancel' (by omega)
  have hreach := reachable_lazy (hvia.mono fun _ _ _ => trivial) hr hargv
    (t := MAXVA + PGSIZE - (s.proc 0).sz) (by rw [hsum]; exact hmax)
  rw [hsum] at hreach
  have hsz : ((withSize s 0 (MAXVA + PGSIZE)).proc 0).sz = MAXVA + PGSIZE := by
    rw [withSize_proc]
  refine ⟨_, 0, hreach, by decide, ?_, ⟨withSize_runs hr _, ?_⟩, fault_maxva ?_⟩
  · rw [hsz]
    decide
  · rw [withSize_proc]
    exact hargv
  · rw [hsz]
    decide

end Process
end Xv6
