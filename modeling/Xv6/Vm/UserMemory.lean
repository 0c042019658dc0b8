import Xv6.Vm.Mapping

/-!
# User memory

Growing, shrinking, copying and freeing the user part of an address space.  `use`
counts the pages an address space holds: its tables and the pages mapped below
the trapframe.
-/

namespace Xv6
namespace Vm

open Lib

variable {b n v oldsz : Nat} {m m' : Kmem} {r : Page}

def use (m : Kmem) (r q : Page) : Nat :=
  nodes m r q + mappedIn (leafAt m r) 0 USERTOP q

def pages (sz : Nat) : Nat :=
  pgroundup sz / PGSIZE

theorem MAXVA_eq : MAXVA = (USERTOP + 2) * PGSIZE := by
  decide

theorem USERTOP_le : USERTOP + 2 <= VPNS := by
  decide

theorem MAXVA_div : MAXVA / PGSIZE = USERTOP + 2 := by
  decide

theorem page_addr (v : Nat) : v * PGSIZE % PGSIZE = 0 ∧ v * PGSIZE / PGSIZE = v :=
  ⟨Nat.mul_mod_left v PGSIZE, Nat.mul_div_cancel v (by decide)⟩

theorem page_addr_lt (h : v < USERTOP + 2) : v * PGSIZE < MAXVA := by
  rw [MAXVA_eq]
  exact Nat.mul_lt_mul_of_pos_right h (by decide)

theorem page_addr_succ (v : Nat) : v * PGSIZE + PGSIZE = (v + 1) * PGSIZE :=
  (Nat.succ_mul v PGSIZE).symm

theorem pgroundup_eq (sz : Nat) : pgroundup sz = pages sz * PGSIZE := by
  unfold pages pgroundup PGSIZE
  omega

theorem pages_eq {sz : Nat} (h : sz <= TRAPFRAME) : pages sz = (sz + 4095) / 4096 := by
  have hmax : TRAPFRAME + 4095 < 2 ^ 64 := by decide
  unfold pages pgroundup PGSIZE
  rw [Nat.mod_eq_of_lt (by omega)]
  omega

theorem pages_le {sz : Nat} (h : sz <= TRAPFRAME) : pages sz <= USERTOP := by
  rw [pages_eq h]
  have htop : TRAPFRAME = USERTOP * 4096 := by decide
  omega

theorem pages_mono {a : Nat} (hab : a <= b) (hb : b <= TRAPFRAME) : pages a <= pages b := by
  rw [pages_eq (hab.trans hb), pages_eq hb]
  omega

theorem pages_mul (h : v <= USERTOP) : pages (v * PGSIZE) = v := by
  have htop : TRAPFRAME = USERTOP * PGSIZE := by decide
  rw [pages_eq (by rw [htop]; exact Nat.mul_le_mul_right _ h)]
  unfold PGSIZE
  omega

/-!
## Mapping a page of user memory
-/

theorem Mapped.mappedIn_eq {e : Pte} {done : Bool}
    (h : Mapped m m' r v e done) (hv : v < USERTOP) (hfree : (leafAt m r v).v = false)
    (he : e.v = true) (q : Page) :
    mappedIn (leafAt m' r) 0 USERTOP q =
      mappedIn (leafAt m r) 0 USERTOP q + if done then one e.ppn q else 0 := by
  have htop := USERTOP_le
  have hupdate := mappedIn_update (leafAt m r) (leafAt m' r) hv (fun w hw hne => by
    rw [h.leaf_eq w (by omega), if_neg (fun hd => hne hd.right)]) q
  have hleaf := h.leaf_eq v (by omega)
  cases done with
  | true =>
    rw [if_pos ⟨rfl, rfl⟩] at hleaf
    rw [hleaf, leafUse_of_invalid hfree, leafUse_of_valid he] at hupdate
    simpa using hupdate
  | false =>
    rw [if_neg (fun hd => by cases hd.left)] at hleaf
    rw [hleaf] at hupdate
    simp only [Bool.false_eq_true, if_false]
    omega

theorem Mapped.use_conserve {e : Pte} {done : Bool}
    (h : Mapped m m' r v e done) (hv : v < USERTOP) (hfree : (leafAt m r v).v = false)
    (he : e.v = true) :
    Conserve m m' (fun q => use m r q + one e.ppn q)
      (fun q => use m' r q + if done then 0 else one e.ppn q) := by
  apply (h.conserve.add
    (fun q => mappedIn (leafAt m r) 0 USERTOP q + one e.ppn q)).congr
  · intro q
    unfold use
    omega
  · intro q
    unfold use
    rw [h.mappedIn_eq hv hfree he q]
    cases done <;> simp only [Bool.false_eq_true, if_true, if_false] <;> omega

theorem map_user (pa : Page) (perm : Perm) (hv : v < USERTOP)
    (hinner : Inner m r) (hgood : Good m (fun q => use m r q + one pa q))
    (hfree : (leafAt m r v).v = false) :
    exists m' done, mappages m r (v * PGSIZE) PGSIZE pa perm = .ok (m', done) ∧
      Mapped m m' r v (perm.pte pa) done ∧
      Conserve m m' (fun q => use m r q + one pa q)
        (fun q => use m' r q + if done then 0 else one pa q) := by
  have hle : forall q, nodes m r q + m.free.count q <= 1 := by
    intro q
    have hone := hgood.le_one q
    unfold use at hone
    omega
  rcases mappages_page pa perm (page_addr_lt (by omega)) (page_addr v).left hinner hle
    (by rw [(page_addr v).right]; exact hfree) with ⟨m', done, hrun, hmap⟩
  rw [(page_addr v).right] at hmap
  exact ⟨m', done, hrun, hmap, hmap.use_conserve hv hfree rfl⟩

/-!
## `uvmdealloc`
-/

/-- The virtual pages from `lo` to `hi` are unmapped and their pages freed. -/
structure Dealloc (m m' : Kmem) (r : Page) (lo hi : Nat) : Prop where
  conserve : Conserve m m' (use m r) (use m' r)
  inner : Inner m' r
  gone : forall w, w < VPNS -> lo <= w -> w < hi -> (leafAt m' r w).v = false
  kept : forall w, w < VPNS -> (w < lo ∨ hi <= w) -> leafAt m' r w = leafAt m r w

theorem Dealloc.refl (lo : Nat) (h : Inner m r) :
    Dealloc m m r lo lo :=
  { conserve := Conserve.refl _ _
    inner := h
    gone := fun _ _ h1 h2 => absurd h1 (Nat.not_le.mpr h2)
    kept := fun _ _ _ => rfl }

theorem mappedIn_parts (L : Nat -> Pte) {lo : Nat} (h : lo + n <= USERTOP) (q : Page) :
    mappedIn L 0 USERTOP q =
      mappedIn L 0 lo q + mappedIn L lo n q + mappedIn L (lo + n) (USERTOP - (lo + n)) q := by
  have htop : USERTOP = lo + n + (USERTOP - (lo + n)) := by omega
  conv_lhs => rw [htop]
  rw [mappedIn_split, mappedIn_split]
  simp only [Nat.zero_add]

theorem Unmapped.dealloc {lo : Nat} (hhi : lo + n <= USERTOP)
    (h : Unmapped m m' r lo n (freed true (leafAt m r) lo n)) :
    Dealloc m m' r lo (lo + n) := by
  have htop := USERTOP_le
  refine { conserve := ?_, inner := h.inner, gone := h.gone, kept := h.kept }
  apply (h.conserve.add (fun q => mappedIn (leafAt m r) 0 lo q +
    mappedIn (leafAt m r) (lo + n) (USERTOP - (lo + n)) q)).congr
  · intro q
    unfold use freed
    rw [mappedIn_parts _ hhi]
    simp only [if_true]
    omega
  · intro q
    unfold use
    rw [mappedIn_parts _ hhi, mappedIn_eq_zero lo q (fun w h1 h2 =>
      h.gone w (by omega) h1 h2),
      mappedIn_congr 0 q (fun w _ h2 => by rw [h.kept w (by omega) (by omega)]),
      mappedIn_congr (lo + n) q (fun w h1 h2 => by
        rw [h.kept w (by omega) (by omega)])]
    omega

theorem unmap_user (lo n : Nat) (hhi : lo + n <= USERTOP)
    (hinner : Inner m r) (hgood : Good m (use m r)) :
    exists m', uvmunmap m r (lo * PGSIZE) n true = .ok m' ∧ Dealloc m m' r lo (lo + n) := by
  have hdiv := (page_addr lo).right
  rcases uvmunmap_spec true (n := n) (page_addr lo).left
    (by rw [hdiv, MAXVA_div]; omega) hinner (hgood.mono (fun q => by
      rw [hdiv]
      unfold use freed
      rw [mappedIn_parts _ hhi]
      simp only [if_true]
      omega)) with ⟨m', hrun, hun⟩
  rw [hdiv] at hun
  exact ⟨m', hrun, hun.dealloc hhi⟩

theorem viaInt_eq {x : Nat} (h : x < 2 ^ 31) : viaInt x = x := by
  unfold viaInt
  rw [Nat.mod_eq_of_lt (by omega), if_pos h]

theorem uvmdealloc_spec (newsz : Nat)
    (hold : oldsz <= TRAPFRAME) (hinner : Inner m r) (hgood : Good m (use m r)) :
    exists m', uvmdealloc m r oldsz newsz = .ok (m', min oldsz newsz) ∧
      Dealloc m m' r (pages (min oldsz newsz)) (pages oldsz) := by
  unfold uvmdealloc
  by_cases hge : newsz >= oldsz
  · rw [if_pos hge, Nat.min_eq_left hge]
    exact ⟨m, rfl, Dealloc.refl _ hinner⟩
  · have hlt : newsz < oldsz := Nat.not_le.mp hge
    have hmono := pages_mono (Nat.le_of_lt hlt) hold
    rw [if_neg hge, Nat.min_eq_right (Nat.le_of_lt hlt), pgroundup_eq, pgroundup_eq]
    by_cases hpages : pages newsz = pages oldsz
    · rw [if_neg (by rw [hpages]; exact Nat.lt_irrefl _), hpages]
      exact ⟨m, rfl, Dealloc.refl _ hinner⟩
    · have hltp : pages newsz < pages oldsz := by omega
      have htop : pages oldsz <= USERTOP := pages_le hold
      have hsmall : USERTOP < 2 ^ 31 := by decide
      have hn : (pages oldsz * PGSIZE - pages newsz * PGSIZE) / PGSIZE =
          pages oldsz - pages newsz := by
        rw [← Nat.sub_mul, Nat.mul_div_cancel _ (by decide)]
      rw [if_pos (Nat.mul_lt_mul_of_pos_right hltp (by decide)), hn, viaInt_eq (by omega)]
      rcases unmap_user (pages newsz) (pages oldsz - pages newsz) (by omega) hinner
        hgood with ⟨m', hrun, hde⟩
      rw [Nat.add_sub_cancel' hmono] at hde
      refine ⟨m', ?_, hde⟩
      simp only [hrun, bind, Except.bind]
      rfl

/-!
## Taking and returning one page

Beside the page itself only the free list changes, so every page table stays as
it is.
-/

theorem Same.use_eq (h : Same m m' r) (q : Page) :
    use m' r q = use m r q := by
  unfold use
  rw [h.nodes_eq q, mappedIn_congr 0 q (fun v _ _ => by rw [h.leaf_eq v])]

theorem kalloc_zeroed {m1 : Kmem} {mem : Page} (h : kalloc m = some (mem, m1)) (c : Nat)
    (X : Page -> Nat) :
    Conserve m (m1.memset mem c) X (fun q => X q + one mem q) := by
  have htake := (kalloc_conserve h X).left
  exact htake.trans (Conserve.memset (X := fun q => X q + one mem q)
    (show X mem + one mem mem ≠ 0 by rw [one_self]; omega) c)

theorem Conserve.same_of_take {Y : Page -> Nat}
    (h : Conserve m m' (fun _ => 0) Y) {X : Page -> Nat} (hgood : Good m X)
    (hX : forall p, nodes m r p <= X p) : Same m m' r := by
  apply h.same
  intro p hp
  have hle := hgood.le_one p
  have hnodes := hX p
  omega

theorem kfree_held {X : Page -> Nat} {pg : Page} (hgood : Good m (fun q => X q + one pg q)) :
    exists m', kfree m pg = .ok m' ∧ Conserve m m' (fun q => X q + one pg q) X ∧
      forall r, (forall p, nodes m r p <= X p) -> Same m m' r := by
  rcases kfree_conserve (X := fun _ => 0) (hgood.mono (fun q => by
    rw [Nat.zero_add]
    exact Nat.le_add_left _ _)) with ⟨m', hrun, hcons⟩
  refine ⟨m', hrun, ?_, ?_⟩
  · apply (hcons.add X).congr
    · intro q
      omega
    · intro q
      exact (Nat.zero_add _).symm
  · intro r hX
    apply hcons.same
    intro p hp
    have hle := hgood.le_one p
    have hnodes := hX p
    omega

theorem nodes_le_use (m : Kmem) (r p : Page) : nodes m r p <= use m r p :=
  Nat.le_add_right _ _

structure Placed (m m' : Kmem) (r : Page) : Prop where
  conserve : Conserve m m' (use m r) (use m' r)
  inner : Inner m' r

theorem map_new_page {m1 : Kmem} {mem : Page} (perm : Perm) (hv : v < USERTOP)
    (hinner : Inner m r) (hgood : Good m (use m r)) (hfree : (leafAt m r v).v = false)
    (htake : Conserve m m1 (fun _ => 0) (one mem)) :
    exists m2 done, mappages m1 r (v * PGSIZE) PGSIZE mem perm = .ok (m2, done) ∧
      m2.free.length <= m1.free.length ∧
      (done = true -> Placed m m2 r ∧ forall w, w < VPNS ->
        leafAt m2 r w = if w = v then perm.pte mem else leafAt m r w) ∧
      (done = false -> exists m3, kfree m2 mem = .ok m3 ∧ Placed m m3 r ∧
        forall w, w < VPNS -> leafAt m3 r w = leafAt m r w) := by
  have hsame := htake.same_of_take hgood (nodes_le_use m r)
  have hheld : Conserve m m1 (use m r) (fun q => use m1 r q + one mem q) :=
    (htake.add (use m r)).congr (fun q => (Nat.zero_add _).symm) (fun q => by
      rw [hsame.use_eq q]
      exact Nat.add_comm _ _)
  have hunmapped : (leafAt m1 r v).v = false := by
    rw [hsame.leaf_eq]
    exact hfree
  rcases map_user mem perm hv (hsame.inner hinner) (hgood.conserve hheld) hunmapped with
    ⟨m2, done, hrun, hmap, hcons⟩
  refine ⟨m2, done, hrun, hmap.free_le, ?_, ?_⟩
  · intro hdone
    subst hdone
    refine ⟨{ conserve := hheld.trans (hcons.congr (fun _ => rfl) (fun q => by
      rw [if_pos rfl, Nat.add_zero])), inner := hmap.inner }, fun w hw => ?_⟩
    rw [hmap.leaf_eq w hw, hsame.leaf_eq w]
    simp only [true_and]
  · intro hdone
    subst hdone
    rcases kfree_held (X := use m2 r) (hgood.conserve (hheld.trans hcons)) with
      ⟨m3, hrun3, hcons3, hsame3⟩
    have hr3 := hsame3 r (nodes_le_use m2 r)
    refine ⟨m3, hrun3, { conserve := (hheld.trans hcons).trans (hcons3.congr (fun _ => rfl)
      (fun q => hr3.use_eq q)), inner := hr3.inner hmap.inner }, fun w hw => ?_⟩
    rw [hr3.leaf_eq w, hmap.leaf_eq w hw, if_neg (fun h => by cases h.left)]
    exact hsame.leaf_eq w

/-!
## `uvmalloc`
-/

structure Grown (m m' : Kmem) (r : Page) (lo n : Nat) (xperm : Perm) : Prop where
  filled : forall v, lo <= v -> v < lo + n ->
    exists pa, leafAt m' r v = Perm.pte { xperm with r := true, u := true } pa
  kept : forall v, v < VPNS -> (v < lo ∨ lo + n <= v) -> leafAt m' r v = leafAt m r v
  bound : lo + n <= USERTOP
  free_le : m'.free.length + n <= m.free.length

structure Restored (m m' : Kmem) (r : Page) (lo : Nat) : Prop where
  gone : forall v, lo <= v -> v < USERTOP -> (leafAt m' r v).v = false
  kept : forall v, v < VPNS -> (v < lo ∨ USERTOP <= v) -> leafAt m' r v = leafAt m r v

theorem uvmalloc_undo {k : Nat} (hbk : b + k <= USERTOP)
    (hinner : Inner m r) (hgood : Good m (use m r))
    (hrest : forall v, b + k <= v -> v < USERTOP -> (leafAt m r v).v = false) :
    exists m', uvmdealloc m r ((b + k) * PGSIZE) (b * PGSIZE) = .ok (m', b * PGSIZE) ∧
      Conserve m m' (use m r) (use m' r) ∧ Inner m' r ∧ Restored m m' r b := by
  have htop := USERTOP_le
  have hold : (b + k) * PGSIZE <= TRAPFRAME := by
    have heq : TRAPFRAME = USERTOP * PGSIZE := by decide
    rw [heq]
    exact Nat.mul_le_mul_right _ hbk
  have hmin : min ((b + k) * PGSIZE) (b * PGSIZE) = b * PGSIZE :=
    Nat.min_eq_right (Nat.mul_le_mul_right _ (Nat.le_add_right b k))
  rcases uvmdealloc_spec (b * PGSIZE) hold hinner hgood with ⟨m', hrun, hde⟩
  rw [hmin, pages_mul (by omega), pages_mul hbk] at hde
  rw [hmin] at hrun
  refine ⟨m', hrun, hde.conserve, hde.inner, ?_, ?_⟩
  · intro v h1 h2
    by_cases hv : v < b + k
    · exact hde.gone v (by omega) h1 hv
    · rw [hde.kept v (by omega) (by omega)]
      exact hrest v (by omega) h2
  · intro v hv hout
    exact hde.kept v hv (by omega)

theorem uvmallocLoop_spec (xperm : Perm) {k : Nat} (hinner : Inner m r) (hgood : Good m (use m r))
    (hroom : b + k + n <= USERTOP ∨ b + k + m.free.length <= USERTOP)
    (hrest : forall v, b + k <= v -> v < USERTOP -> (leafAt m r v).v = false) :
    exists m' done,
      uvmallocLoop (b * PGSIZE) xperm n m r ((b + k) * PGSIZE) = .ok (m', done) ∧
      Conserve m m' (use m r) (use m' r) ∧ Inner m' r ∧
      (done = true -> Grown m m' r (b + k) n xperm) ∧
      (done = false -> Restored m m' r b) := by
  have htop := USERTOP_le
  induction n generalizing m k with
  | zero =>
    refine ⟨m, true, rfl, Conserve.refl _ _, hinner, ?_, fun h => by cases h⟩
    intro _
    exact
      { filled := fun v h1 h2 => absurd h1 (Nat.not_le.mpr h2)
        kept := fun _ _ _ => rfl
        bound := by omega
        free_le := Nat.le_refl _ }
  | succ n ih =>
    have hbk : b + k <= USERTOP := by omega
    unfold uvmallocLoop
    cases halloc : kalloc m with
    | none =>
      rcases uvmalloc_undo hbk hinner hgood hrest with ⟨m', hrun, hcons, hin, hres⟩
      refine ⟨m', false, ?_, hcons, hin, fun h => (by cases h), fun _ => hres⟩
      simp only [hrun, bind, Except.bind]
      rfl
    | some res =>
      rcases res with ⟨mem, m1⟩
      have hlen : m.free.length = m1.free.length + 1 := by
        rw [(kalloc_conserve halloc (fun _ => 0)).right]
        rfl
      have htake := (kalloc_zeroed halloc 0 (fun _ => 0)).congr (fun _ => rfl)
        (fun q => (Nat.zero_add (one mem q)).symm)
      rcases map_new_page { xperm with r := true, u := true } (by omega) hinner hgood
        (hrest (b + k) (Nat.le_refl _) (by omega)) htake with
        ⟨m2, done, hrun, hfreele, hyes, hno⟩
      replace hfreele : m2.free.length <= m1.free.length := hfreele
      simp only [hrun, bind, Except.bind]
      cases done with
      | true =>
        rcases hyes rfl with ⟨hplaced, hleaf⟩
        have hkept : forall v, v < VPNS -> v ≠ b + k ->
            leafAt m2 r v = leafAt m r v := by
          intro v hv hne
          rw [hleaf v hv, if_neg hne]
        rcases ih (k := k + 1) hplaced.inner (hgood.conserve hplaced.conserve) (by omega)
          (fun v h1 h2 => by
            rw [hkept v (by omega) (by omega)]
            exact hrest v (by omega) h2) with ⟨m', done', hrun', hcons', hin', hgr, hre⟩
        refine ⟨m', done', ?_, hplaced.conserve.trans hcons', hin', ?_, ?_⟩
        · simp only [if_true]
          rw [page_addr_succ, Nat.add_assoc]
          exact hrun'
        · intro hdone
          have hgrown := hgr hdone
          have hbound := hgrown.bound
          have hfl := hgrown.free_le
          refine
            { filled := ?_
              kept := ?_
              bound := by omega
              free_le := by omega }
          · intro v h1 h2
            by_cases hv : v = b + k
            · refine ⟨mem, ?_⟩
              rw [hgrown.kept v (by omega) (by omega), hleaf v (by omega), if_pos hv]
            · exact hgrown.filled v (by omega) (by omega)
          · intro v hv hout
            rw [hgrown.kept v hv (by omega)]
            exact hkept v hv (by omega)
        · intro hdone
          have hres := hre hdone
          refine { gone := hres.gone, kept := ?_ }
          intro v hv hout
          rw [hres.kept v hv hout]
          exact hkept v hv (by omega)
      | false =>
        rcases hno rfl with ⟨m3, hfree3, hplaced, hleaf⟩
        rcases uvmalloc_undo hbk hplaced.inner (hgood.conserve hplaced.conserve)
          (fun v h1 h2 => by
            rw [hleaf v (by omega)]
            exact hrest v h1 h2) with ⟨m', hrun', hcons', hin', hres⟩
        refine ⟨m', false, ?_, hplaced.conserve.trans hcons', hin', fun h => (by cases h),
          fun _ => ?_⟩
        · simp only [Bool.false_eq_true, if_false, hfree3, hrun']
          rfl
        · refine { gone := hres.gone, kept := ?_ }
          intro v hv hout
          rw [hres.kept v hv hout]
          exact hleaf v hv

theorem pages_add_pagesBetween {newsz : Nat} (hold : oldsz <= TRAPFRAME) (hle : oldsz <= newsz) :
    newsz <= (pages oldsz + pagesBetween (pgroundup oldsz) newsz) * PGSIZE ∧
      (newsz <= TRAPFRAME ->
        pages oldsz + pagesBetween (pgroundup oldsz) newsz = pages newsz) := by
  rw [pgroundup_eq, pages_eq hold]
  unfold pagesBetween PGSIZE
  constructor
  · omega
  · intro hnew
    rw [pages_eq hnew]
    omega

theorem uvmalloc_spec (newsz : Nat) (xperm : Perm)
    (hold : oldsz <= TRAPFRAME) (hinner : Inner m r) (hgood : Good m (use m r))
    (hroom : newsz <= TRAPFRAME ∨ pages oldsz + m.free.length <= USERTOP)
    (hrest : forall v, pages oldsz <= v -> v < USERTOP -> (leafAt m r v).v = false) :
    exists m' sz, uvmalloc m r oldsz newsz xperm = .ok (m', sz) ∧
      Conserve m m' (use m r) (use m' r) ∧ Inner m' r ∧
      ((newsz < oldsz ∧ sz = oldsz ∧ m' = m) ∨
        (oldsz <= newsz ∧ newsz <= TRAPFRAME ∧ sz = newsz ∧
          Grown m m' r (pages oldsz) (pages newsz - pages oldsz) xperm) ∨
        (sz = 0 ∧ Restored m m' r (pages oldsz))) := by
  unfold uvmalloc
  by_cases hlt : newsz < oldsz
  · rw [if_pos hlt]
    exact ⟨m, oldsz, rfl, Conserve.refl _ _, hinner, Or.inl ⟨hlt, rfl, rfl⟩⟩
  · have hle : oldsz <= newsz := Nat.not_lt.mp hlt
    rw [if_neg hlt]
    rcases pages_add_pagesBetween hold hle with ⟨hcover, hsum⟩
    have hpages := pages_le hold
    rcases uvmallocLoop_spec xperm (n := pagesBetween (pgroundup oldsz) newsz)
      (b := pages oldsz) (k := 0) hinner hgood (by
        rcases hroom with hnew | hfree
        · have htop := pages_le hnew
          have heq := hsum hnew
          omega
        · exact Or.inr (by omega))
      (fun v h1 h2 => hrest v (by omega) h2) with ⟨m', done, hrun, hcons, hin, hyes, hno⟩
    rw [Nat.add_zero, ← pgroundup_eq] at hrun
    refine ⟨m', if done then newsz else 0, ?_, hcons, hin, Or.inr ?_⟩
    · simp only [hrun, bind, Except.bind]
      rfl
    · cases done with
      | true =>
        have hgrown := hyes rfl
        have hnew : newsz <= TRAPFRAME := by
          have htop : TRAPFRAME = USERTOP * PGSIZE := by decide
          rw [htop]
          exact hcover.trans (Nat.mul_le_mul_right _ (by
            have hbound := hgrown.bound
            omega))
        have heq : pages newsz - pages oldsz = pagesBetween (pgroundup oldsz) newsz := by
          rw [← hsum hnew]
          omega
        rw [heq]
        exact Or.inl ⟨hle, hnew, rfl, hgrown⟩
      | false => exact Or.inr ⟨rfl, hno rfl⟩

end Vm
end Xv6
