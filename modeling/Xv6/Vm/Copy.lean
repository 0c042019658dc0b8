import Xv6.Vm.UserMemory

/-!
# Copying user memory

`uvmcopy` fills the child's table page by page while the parent's stays as it is; on
failure the child's user memory is empty again.
-/

namespace Xv6
namespace Vm

open Lib

section

variable {m m1 m' : Kmem} {old new : Page}

theorem uvmcopy_undo {k : Nat} (hk : k <= USERTOP) (hinner : Inner m new)
    (hgood : Good m (use m new))
    (hrest : forall v, k <= v -> v < USERTOP -> (leafAt m new v).v = false) :
    exists m', uvmunmap m new 0 k true = .ok m' ∧ Placed m m' new ∧ Restored m m' new 0 := by
  have htop := USERTOP_le
  rcases unmap_user 0 k (by omega) hinner hgood with ⟨m', hrun, hde⟩
  rw [Nat.zero_mul] at hrun
  rw [Nat.zero_add] at hde
  refine ⟨m', hrun, { conserve := hde.conserve, inner := hde.inner }, ?_, ?_⟩
  · intro v _ h2
    by_cases hv : v < k
    · exact hde.gone v (by omega) (Nat.zero_le _) hv
    · rw [hde.kept v (by omega) (by omega)]
      exact hrest v (by omega) h2
  · intro v hv hout
    exact hde.kept v hv (by omega)

theorem uvmcopyLoop_skip {n i : Nat} (hi : i < MAXVA)
    (hinvalid : (leafAt m old (i / PGSIZE)).v = false) :
    uvmcopyLoop old new (n + 1) m i = uvmcopyLoop old new n m (i + PGSIZE) := by
  conv_lhs => unfold uvmcopyLoop
  rw [walk_false hi]
  cases hloc : sv39.locate m.entry 2 old (i / PGSIZE) with
  | none => rfl
  | some x =>
    rw [leafAt_of_locate hloc] at hinvalid
    simp only [bind, Except.bind, hinvalid, Bool.not_false, if_true]

def uvmcopyPage (old new : Page) (n : Nat) (m : Kmem) (i : Nat) (e : Pte) :
    Except Panic (Kmem × Bool) :=
  match kalloc m with
  | none => do
      let m ← uvmunmap m new 0 (i / PGSIZE) true
      return (m, false)
  | some (mem, m) => do
      let (m, mapped) ← mappages m new i PGSIZE mem e.perm
      if mapped then
        uvmcopyLoop old new n m (i + PGSIZE)
      else
        let m ← kfree m mem
        let m ← uvmunmap m new 0 (i / PGSIZE) true
        return (m, false)

theorem uvmcopyLoop_page {n i : Nat} (hi : i < MAXVA)
    (hvalid : (leafAt m old (i / PGSIZE)).v = true) :
    uvmcopyLoop old new (n + 1) m i =
      uvmcopyPage old new n m i (leafAt m old (i / PGSIZE)) := by
  rcases locate_of_valid hvalid with ⟨⟨p, j⟩, hloc⟩
  have hentry := leafAt_of_locate hloc
  rw [hentry] at hvalid
  conv_lhs => unfold uvmcopyLoop
  rw [walk_false hi, hloc, hentry]
  simp only [bind, Except.bind, hvalid, Bool.not_true, Bool.false_eq_true, if_false]
  unfold uvmcopyPage
  cases kalloc m with
  | none => rfl
  | some res => rfl

/-- After success only the child's virtual pages from `lo` to `hi` changed; after a
failure none of its user memory is mapped. -/
structure CopyResult (m m' : Kmem) (new : Page) (lo hi : Nat) (done : Bool) : Prop where
  placed : Placed m m' new
  kept : done = true -> forall v, v < VPNS -> (v < lo ∨ hi <= v) ->
    leafAt m' new v = leafAt m new v
  restored : done = false -> Restored m m' new 0

theorem CopyResult.prepend {k hi : Nat} {done : Bool} (hkhi : k < hi) (hhi : hi <= USERTOP)
    (h : Placed m m1 new) (hkept : forall v, v < VPNS -> v ≠ k -> leafAt m1 new v = leafAt m new v)
    (h' : CopyResult m1 m' new (k + 1) hi done) : CopyResult m m' new k hi done := by
  have htop := USERTOP_le
  constructor
  · exact { conserve := h.conserve.trans h'.placed.conserve, inner := h'.placed.inner }
  · intro hdone v hv hout
    rw [h'.kept hdone v hv (by omega)]
    exact hkept v hv (by omega)
  · intro hdone
    have hres := h'.restored hdone
    refine { gone := hres.gone, kept := ?_ }
    intro v hv hout
    rw [hres.kept v hv hout]
    exact hkept v hv (by omega)

theorem uvmcopyLoop_spec (old : Page) {n k : Nat} (hk : k + n <= USERTOP) (hinner : Inner m new)
    (hgood : Good m (use m new))
    (hrest : forall v, k <= v -> v < USERTOP -> (leafAt m new v).v = false) :
    exists m' done, uvmcopyLoop old new n m (k * PGSIZE) = .ok (m', done) ∧
      CopyResult m m' new k (k + n) done := by
  have htop := USERTOP_le
  induction n generalizing m k with
  | zero =>
    refine ⟨m, true, rfl, ?_, fun _ _ _ _ => rfl, fun h => by cases h⟩
    exact { conserve := Conserve.refl _ _, inner := hinner }
  | succ n ih =>
    have hva : k * PGSIZE < MAXVA := page_addr_lt (by omega)
    have hdiv := (page_addr k).right
    have hend : k + 1 + n = k + (n + 1) := by omega
    cases hvalid : (leafAt m old k).v with
    | false =>
      rw [uvmcopyLoop_skip hva (by rw [hdiv]; exact hvalid), page_addr_succ]
      rcases ih (k := k + 1) (by omega) hinner hgood (fun v h1 h2 => hrest v (by omega) h2)
        with ⟨m', done, hrun, hres⟩
      rw [hend] at hres
      exact ⟨m', done, hrun, CopyResult.prepend (by omega) hk
        { conserve := Conserve.refl _ _, inner := hinner } (fun _ _ _ => rfl) hres⟩
    | true =>
      rw [uvmcopyLoop_page hva (by rw [hdiv]; exact hvalid), hdiv]
      unfold uvmcopyPage
      rw [hdiv]
      cases halloc : kalloc m with
      | none =>
        rcases uvmcopy_undo (by omega) hinner hgood hrest with ⟨m', hrun, hplaced, hres⟩
        refine ⟨m', false, ?_, hplaced, fun h => (by cases h), fun _ => hres⟩
        simp only [hrun, bind, Except.bind]
        rfl
      | some taken =>
        rcases taken with ⟨mem, m1⟩
        have htake := ((kalloc_conserve halloc (fun _ => 0)).left).congr (fun _ => rfl)
          (fun q => (Nat.zero_add (one mem q)).symm)
        rcases map_new_page (leafAt m old k).perm (by omega) hinner hgood
          (hrest k (Nat.le_refl k) (by omega)) htake with ⟨m2, done, hrun, _, hyes, hno⟩
        simp only [hrun, bind, Except.bind]
        cases done with
        | true =>
          rcases hyes rfl with ⟨hplaced, hleaf⟩
          have hkept : forall v, v < VPNS -> v ≠ k ->
              leafAt m2 new v = leafAt m new v := by
            intro v hv hne
            rw [hleaf v hv, if_neg hne]
          rcases ih (k := k + 1) (by omega) hplaced.inner
            (hgood.conserve hplaced.conserve) (fun v h1 h2 => by
              rw [hkept v (by omega) (by omega)]
              exact hrest v (by omega) h2) with ⟨m', done', hrun', hres⟩
          rw [hend] at hres
          refine ⟨m', done', ?_, CopyResult.prepend (by omega) hk hplaced hkept hres⟩
          simp only [if_true]
          rw [page_addr_succ]
          exact hrun'
        | false =>
          rcases hno rfl with ⟨m3, hfree3, hplaced, hleaf⟩
          rcases uvmcopy_undo (k := k) (by omega) hplaced.inner
            (hgood.conserve hplaced.conserve) (fun v h1 h2 => by
              rw [hleaf v (by omega)]
              exact hrest v h1 h2) with ⟨m', hrun', hplaced', hres⟩
          refine ⟨m', false, ?_, ?_, fun h => (by cases h), fun _ => ?_⟩
          · simp only [Bool.false_eq_true, if_false, hfree3, hrun']
            rfl
          · exact { conserve := hplaced.conserve.trans hplaced'.conserve
                    inner := hplaced'.inner }
          · refine { gone := hres.gone, kept := ?_ }
            intro v hv hout
            rw [hres.kept v hv hout]
            exact hleaf v hv

theorem pagesBetween_zero {sz : Nat} (h : sz <= TRAPFRAME) : pagesBetween 0 sz = pages sz := by
  rw [pages_eq h]
  rfl

theorem uvmcopy_spec (old : Page) {sz : Nat} (hsz : sz <= TRAPFRAME) (hinner : Inner m new)
    (hgood : Good m (use m new)) (hempty : forall v, v < USERTOP -> (leafAt m new v).v = false) :
    exists m' done, uvmcopy m old new sz = .ok (m', done) ∧
      CopyResult m m' new 0 (pages sz) done := by
  unfold uvmcopy
  rw [pagesBetween_zero hsz]
  have hspec := uvmcopyLoop_spec old (n := pages sz) (k := 0)
    (by rw [Nat.zero_add]; exact pages_le hsz) hinner hgood (fun v _ h2 => hempty v h2)
  rw [Nat.zero_mul, Nat.zero_add] at hspec
  exact hspec

end

end Vm
end Xv6
