import Xv6.Process.Memory

/-!
# Process slots

`freeproc` and `allocproc`, and the copy of the memory in `kfork`.
-/

namespace Xv6
namespace Process

open Lib Vm Function

def Proc.freed (p : Proc) : Proc :=
  { p with
    state := .unused
    parent := none
    trapframe := 0
    pagetable := 0
    sz := 0 }

theorem Idle.freed_eq {p : Proc} (h : Idle p) (hstate : p.state = .unused) : p.freed = p := by
  rcases p with ⟨state, parent, trapframe, pagetable, sz, ofile, argv⟩
  rcases h with ⟨hparent, htrapframe, hpagetable, hsize, _⟩
  dsimp only at hstate hparent htrapframe hpagetable hsize
  subst hstate hparent htrapframe hpagetable hsize
  rfl

def tableUse (m : Kmem) (p : Proc) (q : Page) : Nat :=
  if p.pagetable = 0 then 0 else use m p.pagetable q

theorem free_trapframe {m : Kmem} {p : Proc} (hargv : p.argv = []) (hgood : Good m (memUse m p)) :
    exists m1, (if p.trapframe ≠ 0 then kfree m p.trapframe else pure m) = .ok m1 ∧
      Conserve m m1 (memUse m p) (tableUse m1 p) ∧
      (p.pagetable ≠ 0 -> Same m m1 p.pagetable) := by
  have hsplit : forall q, memUse m p q =
      tableUse m p q + if p.trapframe = 0 then 0 else one p.trapframe q := by
    intro q
    unfold memUse tableUse
    rw [hargv, List.count_nil, Nat.add_zero]
  by_cases htf : p.trapframe = 0
  · refine ⟨m, by rw [if_neg (fun h => h htf)]; rfl, ?_, fun _ => Same.refl m _⟩
    apply (Conserve.refl m (memUse m p)).congr (fun _ => rfl)
    intro q
    rw [hsplit q, if_pos htf, Nat.add_zero]
  · have hheld : Good m (fun q => tableUse m p q + one p.trapframe q) := by
      apply hgood.mono
      intro q
      rw [hsplit q, if_neg htf]
    rcases kfree_held hheld with ⟨m1, hrun, hcons, hsame⟩
    have hpt : p.pagetable ≠ 0 -> Same m m1 p.pagetable := by
      intro hne
      apply hsame
      intro a
      unfold tableUse
      rw [if_neg hne]
      exact nodes_le_use m p.pagetable a
    refine ⟨m1, by rw [if_pos htf]; exact hrun, ?_, hpt⟩
    apply hcons.congr
    · intro q
      rw [hsplit q, if_neg htf]
    · intro q
      unfold tableUse
      by_cases hne : p.pagetable = 0
      · rw [if_pos hne, if_pos hne]
      · rw [if_neg hne, if_neg hne, (hpt hne).use_eq q]

section Slots

variable {s : Kernel} {i : Nat}

theorem freeproc_spec {p : Proc} (hp : s.proc i = p) (hargv : p.argv = [])
    (htable : p.pagetable ≠ 0 -> p.sz <= TRAPFRAME ∧
      Space s.kmem s.trampoline p.trapframe p.pagetable (pages p.sz))
    (hgood : Good s.kmem (memUse s.kmem p)) :
    exists m', freeproc s i = .ok ({ s with kmem := m' }.setProc i p.freed) ∧
      Conserve s.kmem m' (memUse s.kmem p) (fun _ => 0) := by
  rcases free_trapframe hargv hgood with ⟨m1, hrun1, hcons1, hsame⟩
  have hgood1 := hgood.conserve hcons1
  unfold freeproc
  simp only [hp, hrun1, ok_bind]
  by_cases hpt : p.pagetable = 0
  · refine ⟨m1, ?_, ?_⟩
    · rw [if_neg (fun h => h hpt)]
      rfl
    · apply hcons1.congr (fun _ => rfl)
      intro q
      unfold tableUse
      rw [if_pos hpt]
  · rcases htable hpt with ⟨hsz, hspace⟩
    have huse : forall q, tableUse m1 p q = use m1 p.pagetable q := fun q => if_neg hpt
    rcases procFreepagetable_spec hsz (hspace.same (hsame hpt))
      (hgood1.mono (fun q => Nat.le_of_eq (huse q).symm)) with ⟨m2, hrun2, hcons2⟩
    refine ⟨m2, ?_, hcons1.trans (hcons2.congr huse (fun _ => rfl))⟩
    rw [if_pos hpt, hrun2]
    rfl

/-!
## `allocproc`
-/

/-- A slot got a trapframe and an address space of size `sz`. -/
structure Fresh (s s' : Kernel) (j sz : Nat) : Prop where
  lt : j < NPROC
  unused : (s.proc j).state = .unused
  eq : s' = { s with kmem := s'.kmem }.setProc j (s'.proc j)
  proc_eq : s'.proc j = { s.proc j with
    state := .used
    trapframe := (s'.proc j).trapframe
    pagetable := (s'.proc j).pagetable
    sz := sz }
  conserve : Conserve s.kmem s'.kmem (fun _ => 0) (memUse s'.kmem (s'.proc j))
  live : Live s'.kmem s'.trampoline (s'.proc j)

def Unchanged (s s' : Kernel) : Prop :=
  s' = { s with kmem := s'.kmem } ∧ Conserve s.kmem s'.kmem (fun _ => 0) (fun _ => 0)

structure Spare (s : Kernel) : Prop where
  ram : KERNBASE / PGSIZE <= s.kmem.kend
  good : Good s.kmem fun _ => 0
  idle : forall j, j < NPROC -> (s.proc j).state = .unused -> Idle (s.proc j)

theorem Owned.spare {lo : Page} {extra : Page -> Nat}
    (h : Owned lo s.kmem s.trampoline s.proc extra) : Spare s :=
  { ram := h.ram_le
    good := h.good.mono fun _ => Nat.zero_le _
    idle := fun j hj => (h.wf j hj).idle }

theorem allocproc_spec (h : Spare s) :
    exists s' res, allocproc s = .ok (s', res) ∧ (res = none -> Unchanged s s') ∧
      forall j, res = some j -> Fresh s s' j 0 := by
  unfold allocproc
  cases hfind : (List.range NPROC).find? (fun i => decide ((s.proc i).state = .unused)) with
  | none =>
    exact ⟨s, none, rfl, fun _ => ⟨rfl, Conserve.refl _ _⟩, fun j h => by cases h⟩
  | some i =>
    rcases find_range hfind with ⟨hi, hunused⟩
    replace hunused : (s.proc i).state = .unused := of_decide_eq_true hunused
    have hidle := h.idle i hi hunused
    have hnone := h.good
    dsimp only
    cases halloc : kalloc s.kmem with
    | none =>
      have hself : (s.setProc i { s.proc i with state := .used, trapframe := 0 }).proc i =
          { s.proc i with state := .used, trapframe := 0 } := update_self ..
      rcases freeproc_spec hself hidle.argv_eq (fun hne => absurd hidle.pagetable_eq hne)
        (hnone.mono (fun q => by simp [memUse, hidle.pagetable_eq, hidle.argv_eq])) with
        ⟨m', hrun, hcons⟩
      refine ⟨{ s with kmem := m' }, none, ?_, fun _ => ⟨rfl, ?_⟩, fun j h => by cases h⟩
      · rw [hrun]
        have hfreed : ({ s.proc i with state := .used, trapframe := 0 } : Proc).freed =
            s.proc i := hidle.freed_eq hunused
        rw [hfreed]
        simp [Kernel.setProc]
      · apply hcons.congr _ (fun _ => rfl)
        intro q
        simp [memUse, hidle.pagetable_eq, hidle.argv_eq]
    | some taken =>
      rcases taken with ⟨trapframe, m1⟩
      have htake : Conserve s.kmem m1 (fun _ => 0) (one trapframe) :=
        (kalloc_conserve halloc (fun _ => 0)).left.congr (fun _ => rfl)
          (fun q => (Nat.zero_add _).symm)
      have hgood1 : Good m1 (one trapframe) := hnone.conserve htake
      have htf : trapframe ≠ 0 := by
        intro hzero
        have hmanaged := (hgood1.managed trapframe (by rw [one_self]; omega)).left
        rw [htake.kend_eq, hzero] at hmanaged
        exact absurd (h.ram.trans hmanaged) (by decide)
      rcases procPagetable_spec s.trampoline trapframe hgood1 with
        ⟨m2, res, hnew, hno, hyes⟩
      dsimp only
      rw [hnew, ok_bind]
      cases res with
      | none =>
        have hself : ({ s with kmem := m2 }.setProc i { s.proc i with
            state := .used, trapframe := trapframe, pagetable := 0 }).proc i =
            { s.proc i with state := .used, trapframe := trapframe, pagetable := 0 } :=
          update_self ..
        have hmem : forall q, memUse m2 { s.proc i with
            state := .used, trapframe := trapframe, pagetable := 0 } q =
            one trapframe q := by
          intro q
          simp [memUse, htf, hidle.argv_eq]
        have hheld := htake.trans (((hno rfl).add (one trapframe)).congr
          (fun q => (Nat.zero_add _).symm) (fun q => (hmem q).trans (Nat.zero_add _).symm))
        rcases freeproc_spec hself hidle.argv_eq (fun hne => absurd rfl hne)
          (hnone.conserve hheld) with ⟨m', hrun, hcons⟩
        refine ⟨{ s with kmem := m' }, none, ?_, fun _ => ⟨rfl, hheld.trans hcons⟩,
          fun j h => by cases h⟩
        have hfreed : ({ s.proc i with
            state := .used, trapframe := trapframe, pagetable := 0 } : Proc).freed =
            s.proc i := hidle.freed_eq hunused
        rw [hfreed] at hrun
        dsimp only
        rw [hrun]
        simp [Kernel.setProc]
      | some r =>
        rcases hyes r rfl with ⟨hcons, hspace⟩
        have hgood2 : Good m2 (use m2 r) :=
          (hgood1.mono (fun q => Nat.zero_le _)).conserve hcons
        have hne : r ≠ 0 := table_ne_zero hgood2 (by
          rw [hcons.kend_eq, htake.kend_eq]
          exact h.ram)
        have hself : ({ s with kmem := m2 }.setProc i { s.proc i with
            state := .used, trapframe := trapframe, pagetable := r }).proc i =
            { s.proc i with state := .used, trapframe := trapframe, pagetable := r } :=
          update_self ..
        have hlive : Live m2 s.trampoline { s.proc i with
            state := .used, trapframe := trapframe, pagetable := r } :=
          { trapframe_ne := htf
            pagetable_ne := hne
            size_le := by rw [hidle.size_eq]; exact Nat.zero_le _
            space := by
              dsimp only
              rw [hidle.size_eq]
              exact hspace }
        refine ⟨_, some i, rfl, fun h => (by cases h), fun j hj => ?_⟩
        cases hj
        refine
          { lt := hi
            unused := hunused
            eq := by rw [hself]; rfl
            proc_eq := by rw [hself, ← hidle.size_eq]
            conserve := ?_
            live := by rw [hself]; exact hlive }
        rw [hself]
        apply htake.trans ((hcons.add (one trapframe)).congr
          (fun q => (Nat.zero_add _).symm) (fun q => ?_))
        apply (hlive.memUse_eq q).trans
        dsimp only
        rw [hidle.argv_eq, List.count_nil, Nat.add_zero]

/-!
## The memory of a child
-/

theorem Fresh.ne {s' : Kernel} {j sz : Nat} (h : Fresh s s' j sz)
    (hstate : (s.proc i).state ≠ .unused) : i ≠ j := by
  intro heq
  rw [heq] at hstate
  exact hstate h.unused

theorem Fresh.proc_ne {s' : Kernel} {j sz : Nat} (h : Fresh s s' j sz) (hij : i ≠ j) :
    s'.proc i = s.proc i := by
  rw [h.eq]
  exact update_of_ne hij ..

theorem kforkMemory_spec {lo : Page} {extra : Page -> Nat}
    (h : Owned lo s.kmem s.trampoline s.proc extra)
    (hi : i < NPROC) (hstate : (s.proc i).state ≠ .unused) :
    exists s' res, kforkMemory s i = .ok (s', res) ∧ (res = none -> Unchanged s s') ∧
      forall j, res = some j -> Fresh s s' j (s.proc i).sz := by
  have hlive := (h.wf i hi).live hstate
  unfold kforkMemory
  rcases allocproc_spec h.spare with ⟨s1, res, hrun, hnone, hsome⟩
  simp only [hrun, ok_bind]
  cases res with
  | none => exact ⟨s1, none, rfl, hnone, fun j h => by cases h⟩
  | some j =>
    have hfresh := hsome j rfl
    have hij := hfresh.ne hstate
    have hparent := hfresh.proc_ne hij
    have hlive1 := hfresh.live
    have hsz1 : (s1.proc j).sz = 0 := by rw [hfresh.proc_eq]
    have hargv1 : (s1.proc j).argv = [] := by
      rw [hfresh.proc_eq]
      exact ((h.wf j hfresh.lt).idle hfresh.unused).argv_eq
    have hspace1 := hlive1.space
    rw [hsz1] at hspace1
    have hempty : Good s.kmem (fun _ => 0) := h.good.mono (fun q => Nat.zero_le _)
    have hgood1 := hempty.conserve hfresh.conserve
    have hsz : (s1.proc i).sz <= TRAPFRAME := by
      rw [hparent]
      exact hlive.size_le
    rcases uvmcopy_spec (s1.proc i).pagetable hsz hspace1.inner (hlive1.good_use hgood1)
      (fun v hv => hspace1.unmapped v (Nat.zero_le v) hv) with ⟨m2, done, hcopy, hres⟩
    have hspace2 := hres.space hspace1 (pages_le hsz)
    simp only [hcopy, ok_bind]
    cases done with
    | true =>
      have hprivate := hlive1.private m2
        { pagetable := (s1.proc j).pagetable, sz := (s1.proc i).sz }
        hres.placed.conserve hlive1.pagetable_ne hsz hspace2
      refine ⟨_, some j, rfl, fun h => (by cases h), fun j' hj => ?_⟩
      cases hj
      refine
        { lt := hfresh.lt
          unused := hfresh.unused
          eq := ?_
          proc_eq := ?_
          conserve := hfresh.conserve.trans hprivate.conserve
          live := hprivate.live }
      · conv_lhs => rw [hfresh.eq]
        simp [Kernel.setProc, hparent, hij]
      · have hproc := hfresh.proc_eq
        simp only [Kernel.setProc, update_self, hparent]
        rw [hproc]
    | false =>
      have hprivate := hlive1.private m2
        { pagetable := (s1.proc j).pagetable, sz := (s1.proc j).sz }
        hres.placed.conserve hlive1.pagetable_ne hlive1.size_le (by
          dsimp only
          rw [hsz1]
          exact hspace2)
      have hself : ({ s1 with kmem := m2 }.setProc j { s1.proc j with
          pagetable := (s1.proc j).pagetable, sz := (s1.proc j).sz }) =
          { s1 with kmem := m2 } := setProc_self { s1 with kmem := m2 } j
      rw [hself] at hprivate
      rcases freeproc_spec (s := { s1 with kmem := m2 }) (i := j) rfl hargv1
        (fun _ => ⟨hlive1.size_le, hprivate.live.space⟩)
        (hgood1.conserve hprivate.conserve) with ⟨m3, hfree, hcons3⟩
      refine ⟨{ s with kmem := m3 }, none, ?_, fun _ => ⟨rfl,
        (hfresh.conserve.trans hprivate.conserve).trans hcons3⟩, fun j' h => by cases h⟩
      have hidle := (h.wf j hfresh.lt).idle hfresh.unused
      have hfreed : (s1.proc j).freed = s.proc j := by
        rw [hfresh.proc_eq]
        exact hidle.freed_eq hfresh.unused
      simp only [Bool.not_false, if_true, hfree, ok_bind]
      rw [hfreed, hfresh.eq]
      simp [Kernel.setProc]
      rfl

end Slots

end Process
end Xv6
