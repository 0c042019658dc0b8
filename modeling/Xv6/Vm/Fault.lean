import Xv6.Vm.UserMemory

/-!
# Lazily allocated pages

`vmfault` maps a page of user memory when it is first touched, on a page fault or
from `copyin` and `copyout`.
-/

namespace Xv6
namespace Vm

open Lib

theorem walkaddr_eq (m : Kmem) (r : Page) (va : Nat) :
    walkaddr m r va = .ok (if va < MAXVA ∧ (leafAt m r (va / PGSIZE)).v = true ∧
      (leafAt m r (va / PGSIZE)).u = true then some (leafAt m r (va / PGSIZE)).ppn
      else none) := by
  unfold walkaddr
  by_cases hva : va >= MAXVA
  · rw [if_pos hva, if_neg (fun h => Nat.not_lt.mpr hva h.left)]
    rfl
  · have hlt : va < MAXVA := Nat.not_le.mp hva
    rw [if_neg hva, walk_false hlt]
    cases hloc : sv39.locate m.entry 2 r (va / PGSIZE) with
    | none =>
      rw [leafAt_of_locate_none hloc, if_neg (fun h => absurd h.right.left (by decide))]
      rfl
    | some x =>
      rw [leafAt_of_locate hloc]
      simp only [bind, Except.bind, hlt, true_and]
      cases hv : (m.entry x.1 x.2).v <;> cases hu : (m.entry x.1 x.2).u <;> rfl

theorem ismapped_eq {m : Kmem} {r : Page} {va : Nat} (hva : va < MAXVA) :
    ismapped m r va = .ok (leafAt m r (va / PGSIZE)).v := by
  unfold ismapped
  rw [walk_false hva]
  cases hloc : sv39.locate m.entry 2 r (va / PGSIZE) with
  | none =>
    rw [leafAt_of_locate_none hloc]
    rfl
  | some x =>
    rw [leafAt_of_locate hloc]
    rfl

theorem pgrounddown_eq (va : Nat) :
    pgrounddown va = va / PGSIZE * PGSIZE ∧ pgrounddown va / PGSIZE = va / PGSIZE :=
  ⟨rfl, (page_addr _).right⟩

theorem vpn_lt_pages {va sz : Nat} (hva : va < sz) (hsz : sz <= TRAPFRAME) :
    va / PGSIZE < pages sz := by
  rw [pages_eq hsz]
  unfold PGSIZE
  omega

/-- Some of the virtual pages below `n` that were not mapped now are. -/
structure Faulted (m m' : Kmem) (r : Page) (n : Nat) : Prop where
  conserve : Conserve m m' (use m r) (use m' r)
  inner : Inner m' r
  leaf : forall v, v < VPNS -> leafAt m' r v = leafAt m r v ∨
    v < n ∧ (leafAt m r v).v = false ∧ (leafAt m' r v).v = true

theorem Faulted.refl {m : Kmem} {r : Page} (n : Nat) (hinner : Inner m r) :
    Faulted m m r n :=
  { conserve := Conserve.refl _ _
    inner := hinner
    leaf := fun _ _ => Or.inl rfl }

theorem Faulted.trans {m m' m'' : Kmem} {r : Page} {n : Nat} (h : Faulted m m' r n)
    (h' : Faulted m' m'' r n) : Faulted m m'' r n := by
  refine { conserve := h.conserve.trans h'.conserve, inner := h'.inner, leaf := ?_ }
  intro v hv
  rcases h'.leaf v hv with heq | ⟨hlt, hbefore, hafter⟩
  · rw [heq]
    exact h.leaf v hv
  · rcases h.leaf v hv with heq | ⟨_, _, hmapped⟩
    · rw [heq] at hbefore
      exact Or.inr ⟨hlt, hbefore, hafter⟩
    · rw [hmapped] at hbefore
      cases hbefore

/-!
## `vmfault`
-/

section Fault

variable {m : Kmem} {r : Page} {sz : Nat}

section

variable (hsz : sz <= TRAPFRAME) (hinner : Inner m r) (hgood : Good m (use m r))
include hsz hinner hgood

theorem vmfault_spec (va : Nat) :
    exists m' res, vmfault m ⟨r, sz⟩ r va = .ok (m', res) ∧
      Faulted m m' r (pages sz) ∧
      (res ≠ none -> va < MAXVA ∧ (leafAt m' r (va / PGSIZE)).v = true) := by
  have hfixed : TRAPFRAME < MAXVA := by decide
  have htop := USERTOP_le
  unfold vmfault
  by_cases hge : va >= sz
  · rw [if_pos hge]
    exact ⟨m, none, rfl, Faulted.refl _ hinner, fun h => absurd rfl h⟩
  · have hlt : va < sz := Nat.not_le.mp hge
    have hvpn : va / PGSIZE < pages sz := vpn_lt_pages hlt hsz
    have huser : va / PGSIZE < USERTOP := Nat.lt_of_lt_of_le hvpn (pages_le hsz)
    have hdown : pgrounddown va < MAXVA := page_addr_lt (by omega)
    rw [if_neg hge]
    simp only [ismapped_eq hdown, (pgrounddown_eq va).right, bind, Except.bind]
    cases hvalid : (leafAt m r (va / PGSIZE)).v with
    | true => exact ⟨m, none, rfl, Faulted.refl _ hinner, fun h => absurd rfl h⟩
    | false =>
      cases halloc : kalloc m with
      | none => exact ⟨m, none, rfl, Faulted.refl _ hinner, fun h => absurd rfl h⟩
      | some taken =>
        rcases taken with ⟨mem, m1⟩
        have htake : Conserve m (m1.memset mem 0) (fun _ => 0) (one mem) :=
          (kalloc_zeroed halloc 0 (fun _ => 0)).congr (fun _ => rfl)
            (fun q => (Nat.zero_add _).symm)
        rcases map_new_page { r := true, w := true, x := false, u := true } huser hinner
          hgood hvalid htake with ⟨m2, done, hrun, _, hyes, hno⟩
        simp only [(pgrounddown_eq va).left, hrun]
        cases done with
        | true =>
          rcases hyes rfl with ⟨hplaced, hleaf⟩
          refine ⟨m2, some mem, rfl,
            { conserve := hplaced.conserve
              inner := hplaced.inner
              leaf := fun w hw => ?_ }, fun _ => ⟨by omega, ?_⟩⟩
          · rw [hleaf w hw]
            by_cases hwv : w = va / PGSIZE
            · rw [if_pos hwv, hwv]
              exact Or.inr ⟨hvpn, hvalid, rfl⟩
            · rw [if_neg hwv]
              exact Or.inl rfl
          · rw [hleaf _ (by omega), if_pos rfl]
            rfl
        | false =>
          rcases hno rfl with ⟨m3, hfree3, hplaced, hleaf⟩
          refine ⟨m3, none, ?_,
            { conserve := hplaced.conserve
              inner := hplaced.inner
              leaf := fun w hw => Or.inl (hleaf w hw) }, fun h => absurd rfl h⟩
          simp only [hfree3]
          rfl

/-!
## `copyin` and `copyout`
-/

theorem touch_spec (va : Nat) :
    exists m' res, touch m ⟨r, sz⟩ r va = .ok (m', res) ∧
      Faulted m m' r (pages sz) ∧
      (res ≠ none -> va < MAXVA ∧ (leafAt m' r (va / PGSIZE)).v = true) := by
  unfold touch
  simp only [walkaddr_eq, bind, Except.bind]
  split
  · next pa hpa =>
      refine ⟨m, some pa, rfl, Faulted.refl _ hinner, fun _ => ?_⟩
      split at hpa
      · next h => exact ⟨h.left, h.right.left⟩
      · cases hpa
  · exact vmfault_spec hsz hinner hgood va

theorem copyinLoop_spec {turns : Nat} (va len : Nat) :
    exists m' done, copyinLoop ⟨r, sz⟩ r turns m va len = .ok (m', done) ∧
      Faulted m m' r (pages sz) := by
  induction turns generalizing m va len with
  | zero => exact ⟨m, true, rfl, Faulted.refl _ hinner⟩
  | succ turns ih =>
    unfold copyinLoop
    by_cases hlen : len = 0
    · rw [if_pos hlen]
      exact ⟨m, true, rfl, Faulted.refl _ hinner⟩
    · rw [if_neg hlen]
      rcases touch_spec hsz hinner hgood (pgrounddown va) with ⟨m1, res, hrun, hfault, _⟩
      simp only [hrun, bind, Except.bind]
      cases res with
      | none => exact ⟨m1, false, rfl, hfault⟩
      | some pa =>
        rcases ih hfault.inner (hgood.conserve hfault.conserve) (pgrounddown va + PGSIZE)
          (len - min (PGSIZE - (va - pgrounddown va)) len) with ⟨m', done, hrest, hrec⟩
        exact ⟨m', done, hrest, hfault.trans hrec⟩

theorem copyoutLoop_spec {turns : Nat} (va len : Nat) :
    exists m' done, copyoutLoop ⟨r, sz⟩ r turns m va len = .ok (m', done) ∧
      Faulted m m' r (pages sz) := by
  induction turns generalizing m va len with
  | zero => exact ⟨m, true, rfl, Faulted.refl _ hinner⟩
  | succ turns ih =>
    unfold copyoutLoop
    by_cases hlen : len = 0
    · rw [if_pos hlen]
      exact ⟨m, true, rfl, Faulted.refl _ hinner⟩
    · rw [if_neg hlen]
      by_cases hva : pgrounddown va >= MAXVA
      · simp only [if_pos hva]
        exact ⟨m, false, rfl, Faulted.refl _ hinner⟩
      · simp only [if_neg hva]
        rcases touch_spec hsz hinner hgood (pgrounddown va) with
          ⟨m1, res, hrun, hfault, hres⟩
        simp only [hrun, bind, Except.bind]
        cases res with
        | none => exact ⟨m1, false, rfl, hfault⟩
        | some pa =>
          rcases hres (by simp) with ⟨hlt, hvalid⟩
          rcases locate_of_valid hvalid with ⟨loc, hloc⟩
          simp only [walk_false hlt, hloc]
          cases hw : (m1.entry loc.1 loc.2).w with
          | false => exact ⟨m1, false, rfl, hfault⟩
          | true =>
            rcases ih hfault.inner (hgood.conserve hfault.conserve)
              (pgrounddown va + PGSIZE)
              (len - min (PGSIZE - (va - pgrounddown va)) len) with
              ⟨m', done, hrest, hrec⟩
            exact ⟨m', done, hrest, hfault.trans hrec⟩

end

end Fault

end Vm
end Xv6
