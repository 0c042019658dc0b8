import Xv6.Vm.Copy
import Xv6.Vm.Fault

/-!
# Address spaces of processes

`proc_pagetable` and `proc_freepagetable` of `proc.c`: a page table with the
trampoline and the trapframe mapped at its top.
-/

namespace Xv6
namespace Vm

open Lib

variable {m m' : Kmem} {v sz : Nat} {r : Page}

/-- `proc_pagetable` for a process whose trapframe is the page `trapframe`. -/
def procPagetable (m : Kmem) (trampoline trapframe : Page) :
    Except Panic (Kmem × Option Page) :=
  match uvmcreate m with
  | none => return (m, none)
  | some (pagetable, m) => do
      let (m, mapped) ← mappages m pagetable TRAMPOLINE PGSIZE trampoline
        { r := true, w := false, x := true, u := false }
      if !mapped then
        let m ← uvmfree m pagetable 0
        return (m, none)
      else
        let (m, mapped) ← mappages m pagetable TRAPFRAME PGSIZE trapframe
          { r := true, w := true, x := false, u := false }
        if !mapped then
          let m ← uvmunmap m pagetable TRAMPOLINE 1 false
          let m ← uvmfree m pagetable 0
          return (m, none)
        else
          return (m, some pagetable)

def procFreepagetable (m : Kmem) (pagetable : Page) (sz : Nat) : Except Panic Kmem := do
  let m ← uvmunmap m pagetable TRAMPOLINE 1 false
  let m ← uvmunmap m pagetable TRAPFRAME 1 false
  uvmfree m pagetable sz

/-!
## Well-formed address spaces

The two fixed pages are mapped for the supervisor only, and all user memory lies
in the first `n` virtual pages.
-/

structure Space (m : Kmem) (trampoline trapframe r : Page) (n : Nat) : Prop where
  inner : Inner m r
  bound : n <= USERTOP
  trampoline_eq : leafAt m r (USERTOP + 1) =
    Perm.pte { r := true, w := false, x := true, u := false } trampoline
  trapframe_eq : leafAt m r USERTOP =
    Perm.pte { r := true, w := true, x := false, u := false } trapframe
  rest : forall v, v < VPNS -> n <= v -> v ≠ USERTOP -> v ≠ USERTOP + 1 ->
    (leafAt m r v).v = false

section Space

variable {m m' : Kmem} {trampoline trapframe r : Page} {n : Nat}

section

variable (h : Space m trampoline trapframe r n)
include h

theorem Space.user_lt (hv : v < VPNS)
    (hvalid : (leafAt m r v).v = true) (huser : (leafAt m r v).u = true) : v < n := by
  apply Nat.not_le.mp
  intro hge
  by_cases htf : v = USERTOP
  · rw [htf, h.trapframe_eq] at huser
    cases huser
  · by_cases htr : v = USERTOP + 1
    · rw [htr, h.trampoline_eq] at huser
      cases huser
    · rw [h.rest v hv hge htf htr] at hvalid
      cases hvalid

theorem Space.unmapped (v : Nat) (hn : n <= v) (hv : v < USERTOP) : (leafAt m r v).v = false := by
  have htop := USERTOP_le
  exact h.rest v (by omega) hn (by omega) (by omega)

theorem Space.of_leaves (n' : Nat) (hinner : Inner m' r) (hbound : n' <= USERTOP)
    (hgone : forall v, n' <= v -> v < USERTOP -> (leafAt m' r v).v = false)
    (hkept : forall v, v < VPNS -> USERTOP <= v -> leafAt m' r v = leafAt m r v) :
    Space m' trampoline trapframe r n' := by
  have htop := USERTOP_le
  have hn := h.bound
  refine { inner := hinner, bound := hbound, trampoline_eq := ?_, trapframe_eq := ?_, rest := ?_ }
  · rw [hkept _ (by omega) (by omega)]
    exact h.trampoline_eq
  · rw [hkept _ (by omega) (by omega)]
    exact h.trapframe_eq
  · intro v hv hge htf htr
    by_cases huser : v < USERTOP
    · exact hgone v hge huser
    · rw [hkept v hv (by omega)]
      exact h.rest v hv (by omega) htf htr

theorem Space.same (hsame : Same m m' r) :
    Space m' trampoline trapframe r n :=
  h.of_leaves n (hsame.inner h.inner) h.bound
    (fun v h1 h2 => by rw [hsame.leaf_eq]; exact h.unmapped v h1 h2)
    (fun v _ _ => hsame.leaf_eq v)

theorem Space.faulted (hf : Faulted m m' r n) :
    Space m' trampoline trapframe r n := by
  have htop := USERTOP_le
  have hn := h.bound
  apply h.of_leaves n hf.inner h.bound
  · intro v h1 h2
    rcases hf.leaf v (by omega) with heq | ⟨hlt, _⟩
    · rw [heq]
      exact h.unmapped v h1 h2
    · omega
  · intro v hv hge
    rcases hf.leaf v hv with heq | ⟨hlt, _⟩
    · exact heq
    · omega

theorem Space.dealloc {n' : Nat}
    (hd : Dealloc m m' r n' n) (hle : n' <= n) : Space m' trampoline trapframe r n' := by
  have htop := USERTOP_le
  have hn := h.bound
  apply h.of_leaves n' hd.inner (by omega)
  · intro v h1 h2
    by_cases hv : v < n
    · exact hd.gone v (by omega) h1 hv
    · rw [hd.kept v (by omega) (by omega)]
      exact h.unmapped v (by omega) h2
  · intro v hv hge
    exact hd.kept v hv (by omega)

theorem Space.grown {k : Nat} {xperm : Perm} (hinner : Inner m' r) (hg : Grown m m' r n k xperm) :
    Space m' trampoline trapframe r (n + k) := by
  have htop := USERTOP_le
  have hbound := hg.bound
  apply h.of_leaves (n + k) hinner hbound
  · intro v h1 h2
    rw [hg.kept v (by omega) (by omega)]
    exact h.unmapped v (by omega) h2
  · intro v hv hge
    exact hg.kept v hv (by omega)

theorem Space.restored (hinner : Inner m' r)
    (hr : Restored m m' r n) : Space m' trampoline trapframe r n :=
  h.of_leaves n hinner h.bound hr.gone (fun v hv hge => hr.kept v hv (Or.inr hge))

end

theorem CopyResult.space {done : Bool} (h : CopyResult m m' r 0 n done)
    (hspace : Space m trampoline trapframe r 0) (hn : n <= USERTOP) :
    Space m' trampoline trapframe r (if done then n else 0) := by
  have htop := USERTOP_le
  cases done with
  | true =>
    rw [if_pos rfl]
    apply hspace.of_leaves n h.placed.inner hn
    · intro v h1 h2
      rw [h.kept rfl v (by omega) (Or.inr h1)]
      exact hspace.unmapped v (Nat.zero_le v) h2
    · intro v hv hge
      exact h.kept rfl v hv (Or.inr (hn.trans hge))
  | false =>
    rw [if_neg Bool.false_ne_true]
    exact hspace.restored h.placed.inner (h.restored rfl)

end Space

/-!
## The fixed pages

Mapping or clearing them changes no leaf of user memory.
-/

theorem use_conserve_of_nodes (h : Conserve m m' (nodes m r) (nodes m' r))
    (hkept : forall v, v < USERTOP -> leafAt m' r v = leafAt m r v) :
    Conserve m m' (use m r) (use m' r) := by
  apply (h.add (mappedIn (leafAt m r) 0 USERTOP)).congr (fun _ => rfl)
  intro q
  unfold use
  rw [mappedIn_congr 0 q (fun v _ hv => by rw [hkept v (by omega)])]

theorem map_fixed (pa : Page) (perm : Perm)
    (hlo : USERTOP <= v) (hhi : v < USERTOP + 2) (hinner : Inner m r)
    (hgood : Good m (use m r)) (hfree : (leafAt m r v).v = false) :
    exists m' done, mappages m r (v * PGSIZE) PGSIZE pa perm = .ok (m', done) ∧
      Conserve m m' (use m r) (use m' r) ∧ Inner m' r ∧
      forall w, w < VPNS ->
        leafAt m' r w = if done = true ∧ w = v then perm.pte pa else leafAt m r w := by
  have htop := USERTOP_le
  have hle : forall q, nodes m r q + m.free.count q <= 1 := by
    intro q
    have hone := hgood.le_one q
    have hnodes := nodes_le_use m r q
    omega
  rcases mappages_page pa perm (page_addr_lt hhi) (page_addr v).left hinner hle
    (by rw [(page_addr v).right]; exact hfree) with ⟨m', done, hrun, hmap⟩
  rw [(page_addr v).right] at hmap
  refine ⟨m', done, hrun, use_conserve_of_nodes hmap.conserve ?_, hmap.inner, hmap.leaf_eq⟩
  intro w hw
  rw [hmap.leaf_eq w (by omega), if_neg (fun h => by omega)]

theorem unmap_fixed (hlo : USERTOP <= v)
    (hhi : v < USERTOP + 2) (hinner : Inner m r) (hgood : Good m (use m r)) :
    exists m', uvmunmap m r (v * PGSIZE) 1 false = .ok m' ∧
      Conserve m m' (use m r) (use m' r) ∧ Inner m' r ∧ (leafAt m' r v).v = false ∧
      forall w, w < VPNS -> w ≠ v -> leafAt m' r w = leafAt m r w := by
  have htop := USERTOP_le
  have hdiv := (page_addr v).right
  rcases uvmunmap_spec false (n := 1) (page_addr v).left (by rw [hdiv, MAXVA_div]; omega) hinner
    (hgood.mono (fun q => by
      simp only [freed, Bool.false_eq_true, if_false, Nat.add_zero]
      exact nodes_le_use m r q)) with ⟨m', hrun, hun⟩
  rw [hdiv] at hun
  have hnodes : Conserve m m' (nodes m r) (nodes m' r) :=
    hun.conserve.congr (fun q => by
      simp only [freed, Bool.false_eq_true, if_false, Nat.add_zero]) (fun _ => rfl)
  have hkept : forall w, w < VPNS -> w ≠ v -> leafAt m' r w = leafAt m r w := by
    intro w hw hne
    exact hun.kept w hw (by omega)
  refine ⟨m', hrun, use_conserve_of_nodes hnodes ?_, hun.inner, ?_, hkept⟩
  · intro w hw
    exact hkept w (by omega) (by omega)
  · exact hun.gone v (by omega) (Nat.le_refl v) (Nat.lt_succ_self v)

theorem TRAMPOLINE_eq : TRAMPOLINE = (USERTOP + 1) * PGSIZE := by
  decide

theorem TRAPFRAME_eq : TRAPFRAME = USERTOP * PGSIZE := by
  decide

/-!
## Freeing
-/

theorem use_of_bare (h : forall v, v < USERTOP -> (leafAt m r v).v = false) (q : Page) :
    use m r q = nodes m r q := by
  unfold use
  rw [mappedIn_eq_zero 0 q (fun v _ hv => h v (by omega)), Nat.add_zero]

theorem freewalk_bare (hinner : Inner m r) (hgood : Good m (use m r))
    (hbare : forall v, v < VPNS -> (leafAt m r v).v = false) :
    exists m', freewalk 3 m r = .ok m' ∧ Conserve m m' (use m r) (fun _ => 0) := by
  have htop := USERTOP_le
  have huse := use_of_bare (fun v hv => hbare v (Nat.lt_of_lt_of_le hv (by omega)))
  rcases freewalk_spec hinner hbare (hgood.mono (fun q => by rw [huse q]; exact Nat.le_refl _))
    with ⟨m', hrun, hcons⟩
  exact ⟨m', hrun, hcons.congr huse (fun _ => rfl)⟩

theorem uvmfree_spec (hsz : sz <= TRAPFRAME) (hinner : Inner m r) (hgood : Good m (use m r))
    (hrest : forall v, v < VPNS -> pages sz <= v -> (leafAt m r v).v = false) :
    exists m', uvmfree m r sz = .ok m' ∧ Conserve m m' (use m r) (fun _ => 0) := by
  unfold uvmfree
  by_cases hpos : 0 < sz
  · have hpages := pages_le hsz
    rcases unmap_user 0 (pages sz) (by omega) hinner hgood with ⟨m1, hrun, hde⟩
    rw [Nat.zero_mul] at hrun
    rw [Nat.zero_add] at hde
    rcases freewalk_bare hde.inner (hgood.conserve hde.conserve) (fun v hv => by
      by_cases hlt : v < pages sz
      · exact hde.gone v hv (Nat.zero_le v) hlt
      · rw [hde.kept v hv (by omega)]
        exact hrest v hv (by omega)) with ⟨m', hfree, hcons⟩
    refine ⟨m', ?_, hde.conserve.trans hcons⟩
    rw [if_pos hpos]
    change (uvmunmap m r 0 (pages sz) true >>= _) = _
    simp only [hrun, bind, Except.bind]
    exact hfree
  · have hzero : sz = 0 := by omega
    subst hzero
    rw [if_neg hpos]
    simp only [pure, Except.pure, bind, Except.bind]
    exact freewalk_bare hinner hgood (fun v hv => hrest v hv (by
      rw [show pages 0 = 0 from by decide]
      exact Nat.zero_le v))

theorem procFreepagetable_spec {trampoline trapframe : Page}
    (hsz : sz <= TRAPFRAME) (hspace : Space m trampoline trapframe r (pages sz))
    (hgood : Good m (use m r)) :
    exists m', procFreepagetable m r sz = .ok m' ∧
      Conserve m m' (use m r) (fun _ => 0) := by
  have htop := USERTOP_le
  have hn := hspace.bound
  unfold procFreepagetable
  rcases unmap_fixed (v := USERTOP + 1) (by omega) (by omega) hspace.inner hgood with
    ⟨m1, hrun1, hcons1, hinner1, hgone1, hkept1⟩
  have hgood1 := hgood.conserve hcons1
  rcases unmap_fixed (v := USERTOP) (by omega) (by omega) hinner1 hgood1 with
    ⟨m2, hrun2, hcons2, hinner2, hgone2, hkept2⟩
  rcases uvmfree_spec hsz hinner2 (hgood1.conserve hcons2) (fun v hv hge => by
    by_cases htf : v = USERTOP
    · rw [htf]
      exact hgone2
    · rw [hkept2 v hv htf]
      by_cases htr : v = USERTOP + 1
      · rw [htr]
        exact hgone1
      · rw [hkept1 v hv htr]
        exact hspace.rest v hv hge htf htr) with ⟨m', hrun, hcons⟩
  refine ⟨m', ?_, (hcons1.trans hcons2).trans hcons⟩
  rw [TRAMPOLINE_eq, TRAPFRAME_eq, hrun1]
  change (uvmunmap m1 r (USERTOP * PGSIZE) 1 false >>= _) = _
  rw [hrun2]
  exact hrun

/-!
A call that returns has freed everything, whatever the size.
-/

theorem uvmunmapLoop_bound {doFree : Bool} {n : Nat} {a : Nat}
    (hpos : n ≠ 0) (hrun : uvmunmapLoop doFree n m r a = .ok m') :
    a / PGSIZE + n <= MAXVA / PGSIZE := by
  induction n generalizing m a with
  | zero => exact absurd rfl hpos
  | succ n ih =>
    unfold uvmunmapLoop at hrun
    rcases bind_eq_ok.mp hrun with ⟨⟨_, loc⟩, hwalk, hrun⟩
    have hva : a < MAXVA := by
      unfold walk at hwalk
      split at hwalk
      · cases hwalk
      · omega
    have hrest : forall m1, uvmunmapLoop doFree n m1 r (a + PGSIZE) = .ok m' ->
        a / PGSIZE + (n + 1) <= MAXVA / PGSIZE := by
      intro m1 hloop
      by_cases hn : n = 0
      · subst hn
        unfold MAXVA PGSIZE at *
        omega
      · have hle := ih hn hloop
        unfold PGSIZE at *
        omega
    cases loc with
    | none => exact hrest _ hrun
    | some slot =>
      rcases slot with ⟨p, i⟩
      dsimp only at hrun
      split at hrun
      · exact hrest _ hrun
      · cases doFree with
        | false => exact hrest _ hrun
        | true =>
          rcases bind_eq_ok.mp hrun with ⟨m1, _, hrun⟩
          exact hrest _ hrun

theorem mappedIn_of_invalid {L : Nat -> Pte} {n k : Nat} (hnk : n <= k) (q : Page)
    (h : forall v, n <= v -> v < k -> (L v).v = false) : mappedIn L 0 k q = mappedIn L 0 n q := by
  have hsplit := mappedIn_split L 0 n (k - n) q
  rw [Nat.add_sub_cancel' hnk, Nat.zero_add] at hsplit
  rw [hsplit, mappedIn_eq_zero n q fun v h1 h2 => h v h1 (by omega), Nat.add_zero]

theorem uvmfree_freed (hinner : Inner m r) (hgood : Good m (use m r))
    (hfixed : forall v, USERTOP <= v -> v < USERTOP + 2 -> (leafAt m r v).v = false)
    (hrun : uvmfree m r sz = .ok m') : Conserve m m' (use m r) (fun _ => 0) := by
  have htop := USERTOP_le
  have hle : forall n, n <= USERTOP + 2 ->
      Good m (fun q => nodes m r q + mappedIn (leafAt m r) 0 n q) := by
    intro n hn
    refine hgood.mono fun q => Nat.add_le_add_left ?_ _
    by_cases hlt : n <= USERTOP
    · have hparts := mappedIn_parts (leafAt m r) (show 0 + n <= USERTOP by omega) q
      omega
    · rw [mappedIn_of_invalid (n := USERTOP) (by omega) q fun v h1 h2 => hfixed v h1 (by omega)]
  have hfirst : exists n m1, n <= USERTOP + 2 ∧
      Unmapped m m1 r 0 n (mappedIn (leafAt m r) 0 n) ∧ freewalk 3 m1 r = .ok m' := by
    unfold uvmfree at hrun
    dsimp only at hrun
    split at hrun
    · rcases bind_eq_ok.mp hrun with ⟨m1, hun, hfree⟩
      have hbound : pgroundup sz / PGSIZE <= USERTOP + 2 := by
        by_cases hzero : pgroundup sz / PGSIZE = 0
        · omega
        · have hmax := uvmunmapLoop_bound hzero hun
          rw [Nat.zero_div, Nat.zero_add, MAXVA_div] at hmax
          exact hmax
      rcases uvmunmap_spec true (n := pgroundup sz / PGSIZE) (m := m) (r := r) (a := 0)
        (by decide) (by rw [Nat.zero_div, Nat.zero_add, MAXVA_div]; exact hbound) hinner
        (hle _ hbound) with ⟨m2, hun', hspec⟩
      rw [hun] at hun'
      cases hun'
      exact ⟨_, m1, hbound, hspec, hfree⟩
    · rw [pure_bind] at hrun
      refine ⟨0, m, Nat.zero_le _, ⟨(Conserve.refl m (nodes m r)).congr (fun q => ?_) fun _ => rfl,
        hinner, fun v _ _ hv => absurd hv (Nat.not_lt_zero v), fun _ _ _ => rfl⟩, hrun⟩
      rw [mappedIn_eq_zero 0 q fun v _ hv => absurd hv (Nat.not_lt_zero v), Nat.add_zero]
  rcases hfirst with ⟨n, m1, hn, hunmapped, hfree⟩
  rcases freewalk_leaves hunmapped.inner ((hle n hn).conserve hunmapped.conserve) hfree with
    ⟨hleaf, hcons⟩
  have hmapped : forall q, use m r q = nodes m r q + mappedIn (leafAt m r) 0 n q := by
    intro q
    unfold use
    by_cases hlt : n <= USERTOP
    · rw [mappedIn_of_invalid hlt q fun v h1 h2 => ?_]
      rw [← hunmapped.kept v (by omega) (Or.inr (by omega))]
      exact hleaf v
    · rw [mappedIn_of_invalid (n := USERTOP) (k := n) (by omega) q fun v h1 h2 =>
        hfixed v h1 (by omega)]
  exact (hunmapped.conserve.trans hcons).congr hmapped fun _ => rfl

theorem procFreepagetable_freed (hinner : Inner m r)
    (hgood : Good m (use m r)) (hrun : procFreepagetable m r sz = .ok m') :
    Conserve m m' (use m r) (fun _ => 0) := by
  have htop := USERTOP_le
  rcases unmap_fixed (v := USERTOP + 1) (by omega) (by omega) hinner hgood with
    ⟨m1, hrun1, hcons1, hinner1, hgone1, hkept1⟩
  have hgood1 := hgood.conserve hcons1
  rcases unmap_fixed (v := USERTOP) (by omega) (by omega) hinner1 hgood1 with
    ⟨m2, hrun2, hcons2, hinner2, hgone2, hkept2⟩
  unfold procFreepagetable at hrun
  rw [TRAMPOLINE_eq, TRAPFRAME_eq, hrun1, ok_bind, hrun2, ok_bind] at hrun
  refine (hcons1.trans hcons2).trans (uvmfree_freed hinner2 (hgood1.conserve hcons2) ?_ hrun)
  intro v hlo hhi
  by_cases hv : v = USERTOP
  · rw [hv]
    exact hgone2
  · have hv' : v = USERTOP + 1 := by omega
    rw [hv', hkept2 _ (by omega) (by omega)]
    exact hgone1

/-!
## Creating
-/

theorem uvmcreate_spec {m1 : Kmem} (h : uvmcreate m = some (r, m1)) :
    Conserve m m1 (fun _ => 0) (use m1 r) ∧ Inner m1 r ∧
      forall v, leafAt m1 r v = Pte.zero := by
  unfold uvmcreate at h
  cases halloc : kalloc m with
  | none =>
    rw [halloc] at h
    cases h
  | some taken =>
    rcases taken with ⟨pg, m0⟩
    rw [halloc] at h
    cases h
    have hblank := memset_zero_blank m0 r
    have hleaf : forall v, leafAt (m0.memset r 0) r v = Pte.zero :=
      fun v => sv39.leaf_blank next_zero hblank 2 v
    refine ⟨?_, sv39.inner_blank next_zero hblank 2, hleaf⟩
    apply (kalloc_zeroed halloc 0 (fun _ => 0)).congr (fun _ => rfl)
    intro q
    rw [use_of_bare (fun v _ => by rw [hleaf v]; rfl), Nat.zero_add]
    exact sv39.uses_blank next_zero hblank 2 q

theorem procPagetable_spec (trampoline trapframe : Page) {X : Page -> Nat} (hgood : Good m X) :
    exists m' res, procPagetable m trampoline trapframe = .ok (m', res) ∧
      (res = none -> Conserve m m' (fun _ => 0) (fun _ => 0)) ∧
      (forall r, res = some r ->
        Conserve m m' (fun _ => 0) (use m' r) ∧ Space m' trampoline trapframe r 0) := by
  have htop := USERTOP_le
  have hnone := hgood.mono (Y := fun _ => 0) (fun q => Nat.zero_le _)
  unfold procPagetable
  cases hcreate : uvmcreate m with
  | none =>
    refine ⟨m, none, rfl, fun _ => Conserve.refl _ _, fun r h => by cases h⟩
  | some created =>
    rcases created with ⟨r, m1⟩
    rcases uvmcreate_spec hcreate with ⟨hcons1, hinner1, hleaf1⟩
    have hgood1 := hnone.conserve hcons1
    rcases map_fixed (v := USERTOP + 1) trampoline
      { r := true, w := false, x := true, u := false } (by omega) (by omega) hinner1 hgood1
      (by rw [hleaf1]; rfl) with ⟨m2, done2, hrun2, hcons2, hinner2, hleaf2⟩
    have hgood2 := hgood1.conserve hcons2
    rw [TRAMPOLINE_eq, TRAPFRAME_eq]
    simp only [hrun2, bind, Except.bind]
    cases done2 with
    | false =>
      rcases uvmfree_spec (Nat.zero_le TRAPFRAME) hinner2 hgood2 (fun v hv _ => by
        rw [hleaf2 v hv, if_neg (fun h => by cases h.left), hleaf1]
        rfl) with ⟨m3, hrun3, hcons3⟩
      refine ⟨m3, none, ?_, fun _ => (hcons1.trans hcons2).trans hcons3,
        fun r h => by cases h⟩
      simp only [Bool.not_false, if_true, hrun3]
      rfl
    | true =>
      rcases map_fixed (v := USERTOP) trapframe
        { r := true, w := true, x := false, u := false } (by omega) (by omega) hinner2 hgood2
        (by rw [hleaf2 _ (by omega), if_neg (fun h => by omega), hleaf1]; rfl) with
        ⟨m3, done3, hrun3, hcons3, hinner3, hleaf3⟩
      have hgood3 := hgood2.conserve hcons3
      simp only [Bool.not_true, Bool.false_eq_true, if_false, hrun3]
      cases done3 with
      | false =>
        rcases unmap_fixed (v := USERTOP + 1) (by omega) (by omega) hinner3 hgood3 with
          ⟨m4, hrun4, hcons4, hinner4, hgone4, hkept4⟩
        rcases uvmfree_spec (Nat.zero_le TRAPFRAME) hinner4 (hgood3.conserve hcons4)
          (fun v hv _ => by
            by_cases htr : v = USERTOP + 1
            · rw [htr]
              exact hgone4
            · rw [hkept4 v hv htr, hleaf3 v hv, if_neg (fun h => by cases h.left),
                hleaf2 v hv, if_neg (fun h => htr h.right), hleaf1]
              rfl) with ⟨m5, hrun5, hcons5⟩
        refine ⟨m5, none, ?_, fun _ =>
          (((hcons1.trans hcons2).trans hcons3).trans hcons4).trans hcons5,
          fun r h => by cases h⟩
        simp only [Bool.not_false, if_true, hrun4, hrun5]
        rfl
      | true =>
        refine ⟨m3, some r, rfl, fun h => (by cases h), fun r' h => ?_⟩
        cases h
        refine ⟨(hcons1.trans hcons2).trans hcons3,
          { inner := hinner3
            bound := Nat.zero_le _
            trampoline_eq := ?_
            trapframe_eq := ?_
            rest := ?_ }⟩
        · rw [hleaf3 _ (by omega), if_neg (fun h => by omega), hleaf2 _ (by omega),
            if_pos ⟨rfl, rfl⟩]
        · rw [hleaf3 _ (by omega), if_pos ⟨rfl, rfl⟩]
        · intro v hv _ htf htr
          rw [hleaf3 v hv, if_neg (fun h => htf h.right), hleaf2 v hv,
            if_neg (fun h => htr h.right), hleaf1]
          rfl

end Vm
end Xv6
