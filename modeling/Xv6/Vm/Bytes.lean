import Xv6.Vm.AddressSpace
import Mathlib.Data.List.GetD

/-!
# Copying between the kernel and user memory

`copyout` and `copyin` with the bytes that they move.  A page of memory is read
either as a table, through its entries, or as bytes; the pages of a table are
never used for bytes, because every page is in use at most once.
-/

namespace Xv6
namespace Vm

open Lib Function

/-!
## Memory with bytes
-/

structure Ram where
  kmem : Kmem
  data : Page -> Nat -> UInt8

namespace Ram

def kalloc (x : Ram) : Option (Page × Ram) :=
  (Vm.kalloc x.kmem).map fun (pg, m) =>
    (pg,
      {
        kmem := m
        data := update x.data pg fun _ => 5
      })

def memset (x : Ram) (pg : Page) (c : UInt8) : Ram :=
  {
    kmem := x.kmem.memset pg c.toNat
    data := update x.data pg fun _ => c
  }

/-- The link that the free list keeps in a free page is left out. -/
def kfree (x : Ram) (pg : Page) : Except Panic Ram :=
  (Vm.kfree x.kmem pg).map fun m =>
    {
      kmem := m
      data := update x.data pg fun _ => 1
    }

def mappages (x : Ram) (pagetable : Page) (va size : Nat) (pa : Page) (perm : Perm) :
    Except Panic (Ram × Bool) :=
  (Vm.mappages x.kmem pagetable va size pa perm).map fun (m, mapped) =>
    ({ x with kmem := m }, mapped)

def vmfault (x : Ram) (p : MyProc) (pagetable : Page) (va : Nat) :
    Except Panic (Ram × Option Page) := do
  if va >= p.sz then
    return (x, none)
  else
    let va := pgrounddown va
    if (← ismapped x.kmem pagetable va) then
      return (x, none)
    else
      match x.kalloc with
      | none => return (x, none)
      | some (mem, x) =>
        let (x, mapped) ← (x.memset mem 0).mappages p.pagetable va PGSIZE mem
          { r := true, w := true, x := false, u := true }
        if mapped then
          return (x, some mem)
        else
          let x ← x.kfree mem
          return (x, none)

def touch (x : Ram) (p : MyProc) (pagetable : Page) (va0 : Nat) :
    Except Panic (Ram × Option Page) := do
  match ← walkaddr x.kmem pagetable va0 with
  | some pa0 => return (x, some pa0)
  | none => x.vmfault p pagetable va0

def store (x : Ram) (pg : Page) (off n : Nat) (src : Nat -> UInt8) : Ram :=
  { x with
    data := update x.data pg fun j =>
      if off <= j ∧ j < off + n then src (j - off) else x.data pg j }

def copyoutLoop (p : MyProc) (pagetable : Page) : Nat -> Ram -> (Nat -> UInt8) -> Nat -> Nat ->
    Except Panic (Ram × Bool)
  | 0, x, _, _, _ => return (x, true)
  | turns + 1, x, src, dstva, len =>
    if len = 0 then
      return (x, true)
    else do
      let va0 := pgrounddown dstva
      if va0 >= MAXVA then
        return (x, false)
      else
        let (x, pa0) ← x.touch p pagetable va0
        match pa0 with
        | none => return (x, false)
        | some pa0 =>
          let (_, loc) ← walk x.kmem pagetable va0 false
          match loc with
          | none => throw .kerneltrap
          | some (q, i) =>
            -- forbid copyout over read-only user text pages
            if !(x.kmem.entry q i).w then
              return (x, false)
            else
              let n := min (PGSIZE - (dstva - va0)) len
              copyoutLoop p pagetable turns (x.store pa0 (dstva - va0) n src)
                (fun j => src (n + j)) ((va0 + PGSIZE) % 2 ^ 64) (len - n)

def copyout (x : Ram) (p : MyProc) (pagetable : Page) (dstva : Nat) (src : Nat -> UInt8)
    (len : Nat) : Except Panic (Ram × Bool) :=
  copyoutLoop p pagetable len x src dstva len

def copyinLoop (p : MyProc) (pagetable : Page) : Nat -> Ram -> Nat -> Nat ->
    Except Panic (Ram × Bool × List UInt8)
  | 0, x, _, _ => return (x, true, [])
  | turns + 1, x, srcva, len =>
    if len = 0 then
      return (x, true, [])
    else do
      let va0 := pgrounddown srcva
      let (x, pa0) ← x.touch p pagetable va0
      match pa0 with
      | none => return (x, false, [])
      | some pa0 =>
        let n := min (PGSIZE - (srcva - va0)) len
        let chunk := (List.range n).map fun j => x.data pa0 (srcva - va0 + j)
        let (x, done, rest) ← copyinLoop p pagetable turns x ((va0 + PGSIZE) % 2 ^ 64) (len - n)
        return (x, done, chunk ++ rest)

def copyin (x : Ram) (p : MyProc) (pagetable : Page) (srcva len : Nat) :
    Except Panic (Ram × Bool × List UInt8) :=
  copyinLoop p pagetable len x srcva len

end Ram

/-!
## When a page can be used
-/

/-- A user page that is mapped, for writing if `write`, or one below `sz` that is not and that can
be allocated together with the tables it needs. -/
def Usable (write : Bool) (m : Kmem) (sz : Nat) (r : Page) (v : Nat) : Prop :=
  (v < USERTOP + 2 ∧ (leafAt m r v).v = true ∧ (leafAt m r v).u = true ∧
    (write = true -> (leafAt m r v).w = true)) ∨
  (v * PGSIZE < sz ∧ (leafAt m r v).v = false ∧
    sv39.missing m.entry 2 r v + 1 <= m.free.length)

variable {m m' : Kmem} {r pa : Page} {va : Nat} {perm : Perm} {done : Bool}

theorem walkLoop_blank {n : Nat}
    (hblank : sv39.Blank Pte.zero m.entry r) (hr : r ∉ m.free) (hnodup : m.free.Nodup) :
    (walkLoop true n m r va).2 = none <-> m.free.length < n := by
  induction n generalizing m r with
  | zero => simp [walkLoop]
  | succ n ih =>
    have hentry : (m.entry r (PX (n + 1) va)).v = false := by
      rw [hblank _ (PX_lt _ _)]
      rfl
    simp only [walkLoop, hentry]
    cases hfree : m.free with
    | nil =>
      have hnone := kalloc_eq_none.mpr hfree
      simp [hnone]
    | cons pg rest =>
      have halloc : kalloc m = some (pg, { m with free := rest }.memset pg 5) := by
        rw [kalloc, hfree]
      rw [hfree] at hr hnodup
      have hne : r ≠ pg := by
        rintro rfl
        exact hr List.mem_cons_self
      have hrest := List.nodup_cons.mp hnodup
      rw [halloc]
      have hrec := ih (m := (Kmem.memset (Kmem.memset { m with free := rest } pg 5) pg 0).set r
        (PX (n + 1) va) (Pte.link pg)) (r := pg) (linked_blank _ _ hne) hrest.1 hrest.2
      simp only [Bool.false_eq_true, if_false, Bool.not_true]
      rw [hrec]
      simp [Kmem.set, Kmem.memset]

theorem walkLoop_eq_none {n : Nat} (hle : forall q, sv39.uses m.entry n r q + m.free.count q <= 1) :
    (walkLoop true n m r va).2 = none <->
      m.free.length < sv39.missing m.entry n r (va / PGSIZE) := by
  have hnodup : m.free.Nodup := by
    rw [List.nodup_iff_count_le_one]
    intro q
    have hq := hle q
    omega
  have hnotfree : r ∉ m.free := by
    intro hmem
    have hcount := List.count_pos_iff.mpr hmem
    have hself := sv39.uses_self m.entry n r
    have hr := hle r
    omega
  induction n generalizing r with
  | zero => simp [walkLoop, Radix.missing]
  | succ n ih =>
    simp only [walkLoop, Radix.missing, PX_eq_slot]
    cases hv : (m.entry r (sv39.slot (n + 1) (va / PGSIZE))).v with
    | true =>
      rw [if_pos rfl, next_of_valid hv]
      have hlec : forall q, sv39.uses m.entry n
          (m.entry r (sv39.slot (n + 1) (va / PGSIZE))).ppn q + m.free.count q <= 1 := by
        intro q
        have hsub := sv39.below_le m.entry n r (sv39.slot_lt (n + 1) (va / PGSIZE)) q
        rw [sv39.below_of_next (next_of_valid hv)] at hsub
        have hq := hle q
        omega
      refine ih hlec ?_
      intro hmem
      have hcount := List.count_pos_iff.mpr hmem
      have hself := sv39.uses_self m.entry n
        (m.entry r (sv39.slot (n + 1) (va / PGSIZE))).ppn
      have hr := hlec (m.entry r (sv39.slot (n + 1) (va / PGSIZE))).ppn
      omega
    | false =>
      rw [next_of_invalid hv]
      cases hfree : m.free with
      | nil =>
        have hnone := kalloc_eq_none.mpr hfree
        simp [hnone]
      | cons pg rest =>
        have halloc : kalloc m = some (pg, { m with free := rest }.memset pg 5) := by
          rw [kalloc, hfree]
        have hne : r ≠ pg := by
          rintro rfl
          exact hnotfree (hfree ▸ List.mem_cons_self)
        have hrest := List.nodup_cons.mp (hfree ▸ hnodup)
        rw [halloc]
        have hrec := @walkLoop_blank
          ((Kmem.memset (Kmem.memset { m with free := rest } pg 5) pg 0).set r
            (sv39.slot (n + 1) (va / PGSIZE)) (Pte.link pg)) pg va n
          (linked_blank _ _ hne) hrest.1 hrest.2
        simp only [Bool.false_eq_true, if_false, Bool.not_true]
        rw [hrec]
        simp [Kmem.set, Kmem.memset]

theorem mappages_done (hva : va < MAXVA) (halign : va % PGSIZE = 0)
    (hle : forall q, nodes m r q + m.free.count q <= 1)
    (hrun : mappages m r va PGSIZE pa perm = .ok (m', done)) :
    done = false <-> m.free.length < sv39.missing m.entry 2 r (va / PGSIZE) := by
  have hmap : mappages m r va PGSIZE pa perm = mappagesLoop 1 m r va pa perm := by
    unfold mappages
    rw [if_neg (by simpa using halign), if_neg (by decide), if_neg (by decide)]
    rfl
  have hwalk : walk m r va true = .ok (walkLoop true 2 m r va) := by
    unfold walk
    rw [if_neg (Nat.not_le.mpr hva)]
  rw [← walkLoop_eq_none hle]
  rw [hmap, mappagesLoop, hwalk] at hrun
  rcases hres : walkLoop true 2 m r va with ⟨m1, loc⟩
  rw [hres] at hrun
  cases loc with
  | none =>
    cases hrun
    simp
  | some x =>
    simp only [bind, Except.bind] at hrun
    split at hrun
    · cases hrun
    · cases hrun
      simp

theorem walkLoop_free (n : Nat) (m : Kmem) (r : Page) (va : Nat) :
    (walkLoop true n m r va).1.free <:+ m.free := by
  induction n generalizing m r with
  | zero => exact List.suffix_rfl
  | succ n ih =>
    simp only [walkLoop]
    split
    · exact ih m _
    · cases halloc : kalloc m with
      | none => exact List.suffix_rfl
      | some taken =>
        rcases taken with ⟨pg, m1⟩
        have hfree := (kalloc_conserve halloc (fun _ => 0)).2
        rw [hfree]
        exact (ih _ _).trans (List.suffix_cons pg _)

theorem mappages_free_eq (hrun : mappages m r va PGSIZE pa perm = .ok (m', done)) :
    m'.free = (walkLoop true 2 m r va).1.free := by
  unfold mappages at hrun
  split at hrun
  · cases hrun
  · split at hrun
    · cases hrun
    · split at hrun
      · cases hrun
      · change mappagesLoop 1 m r va pa perm = _ at hrun
        rw [mappagesLoop, walk] at hrun
        split at hrun
        · cases hrun
        · rcases hres : walkLoop true 2 m r va with ⟨m1, loc⟩
          rw [hres] at hrun
          cases loc with
          | none =>
            cases hrun
            rfl
          | some x =>
            simp only [bind, Except.bind] at hrun
            split at hrun
            · cases hrun
            · cases hrun
              rfl

theorem mappages_free
    (hrun : mappages m r va PGSIZE pa perm = .ok (m', done)) : m'.free <:+ m.free := by
  rw [mappages_free_eq hrun]
  exact walkLoop_free 2 m r va

/-!
## One page
-/

section

variable {x : Ram} {sz : Nat} {r : Page}

inductive Touched (x : Ram) (sz : Nat) (r : Page) (v : Nat) : Ram -> Option Page -> Prop where
  | mapped : v < USERTOP + 2 -> (leafAt x.kmem r v).v = true -> (leafAt x.kmem r v).u = true ->
      Touched x sz r v x (some (leafAt x.kmem r v).ppn)
  | fresh {m : Kmem} {pa : Page} : v * PGSIZE < sz -> (leafAt x.kmem r v).v = false ->
      sv39.missing x.kmem.entry 2 r v + 1 <= x.kmem.free.length -> pa ∈ x.kmem.free ->
      m.free <:+ x.kmem.free -> Placed x.kmem m r ->
      (forall w, w < VPNS -> leafAt m r w =
        if w = v then Perm.pte { r := true, w := true, x := false, u := true } pa
        else leafAt x.kmem r w) ->
      Touched x sz r v
        {
          kmem := m
          data := update x.data pa fun _ => 0
        } (some pa)
  | refused {y : Ram} : ¬ Usable false x.kmem sz r v -> Placed x.kmem y.kmem r ->
      (forall w, w < VPNS -> leafAt y.kmem r w = leafAt x.kmem r w) ->
      (forall q, q ∉ x.kmem.free -> y.data q = x.data q) -> Touched x sz r v y none

theorem Touched.stay {v : Nat} (hinner : Inner x.kmem r) (h : ¬ Usable false x.kmem sz r v) :
    Touched x sz r v x none :=
  .refused h ⟨Conserve.refl _ _, hinner⟩ (fun _ _ => rfl) (fun _ _ => rfl)

theorem vmfault_touched (hsz : sz <= TRAPFRAME) (hinner : Inner x.kmem r)
    (hgood : Good x.kmem (use x.kmem r)) {v : Nat}
    (hno : ¬ (v < USERTOP + 2 ∧ (leafAt x.kmem r v).v = true ∧ (leafAt x.kmem r v).u = true)) :
    exists y res, x.vmfault ⟨r, sz⟩ r (v * PGSIZE) = .ok (y, res) ∧
      Touched x sz r v y res := by
  have hmapped : ¬ (v < USERTOP + 2 ∧ (leafAt x.kmem r v).v = true ∧
      (leafAt x.kmem r v).u = true ∧ (false = true -> (leafAt x.kmem r v).w = true)) := by
    rintro ⟨hv, hvalid, huser, _⟩
    exact hno ⟨hv, hvalid, huser⟩
  unfold Ram.vmfault
  by_cases hge : v * PGSIZE >= sz
  · rw [if_pos hge]
    refine ⟨x, none, rfl, Touched.stay hinner ?_⟩
    rintro (h | h)
    · exact hmapped h
    · exact absurd h.1 (Nat.not_lt.mpr hge)
  · have hlt : v * PGSIZE < sz := Nat.not_le.mp hge
    have hpage := page_addr v
    have hvpn : v < pages sz := by
      have hlt' := vpn_lt_pages hlt hsz
      rw [hpage.2] at hlt'
      exact hlt'
    have huser : v < USERTOP := Nat.lt_of_lt_of_le hvpn (pages_le hsz)
    have hva : v * PGSIZE < MAXVA := page_addr_lt (by omega)
    have hdown : pgrounddown (v * PGSIZE) = v * PGSIZE := by
      rw [(pgrounddown_eq _).1, hpage.2]
    rw [if_neg hge]
    simp only [hdown, ismapped_eq hva, hpage.2, bind, Except.bind]
    cases hvalid : (leafAt x.kmem r v).v with
    | true =>
      refine ⟨x, none, rfl, Touched.stay hinner ?_⟩
      rintro (h | h)
      · exact hmapped h
      · rw [h.2.1] at hvalid
        cases hvalid
    | false =>
      rw [hvalid] at hmapped
      cases halloc : kalloc x.kmem with
      | none =>
        have hfree := kalloc_eq_none.mp halloc
        refine ⟨x, none, ?_, Touched.stay hinner ?_⟩
        · simp [Ram.kalloc, halloc]
          rfl
        · rintro (h | h)
          · rw [hvalid] at h
            exact hmapped h
          · rw [hfree] at h
            exact absurd h.2.2 (by simp)
      | some taken =>
        rcases taken with ⟨mem, m1⟩
        have hfree := (kalloc_conserve halloc (fun _ => 0)).2
        have htake : Conserve x.kmem (m1.memset mem 0) (fun _ => 0) (one mem) :=
          (kalloc_zeroed halloc 0 (fun _ => 0)).congr (fun _ => rfl)
            (fun q => (Nat.zero_add _).symm)
        have hsame := htake.same_of_take hgood (nodes_le_use x.kmem r)
        rcases map_new_page { r := true, w := true, x := false, u := true } huser hinner
          hgood hvalid htake with ⟨m2, done, hrun, _, hyes, hnot⟩
        have hagree : sv39.Agree x.kmem.entry (m1.memset mem 0).entry 2 r := by
          intro p hp i _
          have hone := hgood.le_one p
          have hnodes := nodes_le_use x.kmem r p
          have hpos : nodes x.kmem r p ≠ 0 := hp
          rw [htake.frame p (by omega)]
        have hle : forall q, nodes (m1.memset mem 0) r q + (m1.memset mem 0).free.count q <= 1 := by
          intro q
          have hone := hgood.le_one q
          have hnodes := nodes_le_use x.kmem r q
          have htotal := htake.total q
          rw [hsame.nodes_eq q]
          omega
        have hdone : done = false <->
            x.kmem.free.length < sv39.missing x.kmem.entry 2 r v + 1 := by
          rw [mappages_done hva hpage.1 hle hrun, hpage.2, sv39.missing_congr hagree, hfree]
          simp [Kmem.memset]
        have hram : (Ram.memset
            {
              kmem := m1
              data := update x.data mem fun _ => 5
            } mem 0).mappages r (v * PGSIZE) PGSIZE mem
            { r := true, w := true, x := false, u := true } =
            .ok (
              {
                kmem := m2
                data := update x.data mem fun _ => 0
              }, done) := by
          unfold Ram.mappages Ram.memset
          have hzero : (0 : UInt8).toNat = 0 := rfl
          rw [hzero, hrun]
          simp [Except.map]
        simp only [Ram.kalloc, halloc, Option.map_some, hram]
        cases done with
        | true =>
          rcases hyes rfl with ⟨hplaced, hleaf⟩
          have henough : sv39.missing x.kmem.entry 2 r v + 1 <= x.kmem.free.length := by
            have hfew := mt hdone.mpr (by decide)
            omega
          refine ⟨_, some mem, rfl, .fresh hlt hvalid henough ?_ ?_ hplaced hleaf⟩
          · rw [hfree]
            exact List.mem_cons_self
          · rw [hfree]
            exact (mappages_free hrun).trans (List.suffix_cons mem _)
        | false =>
          rcases hnot rfl with ⟨m3, hfree3, hplaced, hleaf⟩
          refine ⟨_, none, by simp only [Ram.kfree, hfree3]; rfl, .refused ?_ hplaced hleaf ?_⟩
          · rintro (h | h)
            · rw [hvalid] at h
              exact hmapped h
            · have hfew := hdone.mp rfl
              omega
          · intro q hq
            have hne : q ≠ mem := by
              rintro rfl
              rw [hfree] at hq
              exact hq List.mem_cons_self
            dsimp only
            rw [update_of_ne hne, update_of_ne hne]

theorem touch_touched (hsz : sz <= TRAPFRAME) (hinner : Inner x.kmem r)
    (hgood : Good x.kmem (use x.kmem r)) (v : Nat) :
    exists y res, x.touch ⟨r, sz⟩ r (v * PGSIZE) = .ok (y, res) ∧
      Touched x sz r v y res := by
  have hlt : v * PGSIZE < MAXVA <-> v < USERTOP + 2 := by
    rw [MAXVA_eq]
    exact Nat.mul_lt_mul_right (by decide)
  unfold Ram.touch
  simp only [walkaddr_eq, (page_addr v).2, bind, Except.bind]
  split
  · next pa hpa =>
      split at hpa
      · next h =>
          cases hpa
          exact ⟨x, _, rfl, .mapped (hlt.mp h.1) h.2.1 h.2.2⟩
      · cases hpa
  · next hnone =>
      split at hnone
      · cases hnone
      · next h =>
          refine vmfault_touched hsz hinner hgood ?_
          rintro ⟨hv, hvalid, huser⟩
          exact h ⟨hlt.mpr hv, hvalid, huser⟩

end

/-!
## The whole range
-/

section

variable {x y z : Ram} {sz : Nat} {r trampoline trapframe : Page}

variable {m : Kmem} {v a k n len : Nat} {write done : Bool} {src : Nat -> UInt8}
  {Ran : Nat -> Ram -> Prop}

theorem leaf_inj (hgood : Good m (use m r)) {w : Nat} (hv : v < USERTOP)
    (hw : w < USERTOP) (hvv : (leafAt m r v).v = true) (hwv : (leafAt m r w).v = true)
    (heq : (leafAt m r v).ppn = (leafAt m r w).ppn) : v = w := by
  by_contra hne
  have hone := hgood.le_one (leafAt m r v).ppn
  have huse : use m r (leafAt m r v).ppn =
      nodes m r (leafAt m r v).ppn + mappedIn (leafAt m r) 0 USERTOP (leafAt m r v).ppn := rfl
  have hsum : mappedIn (leafAt m r) 0 USERTOP (leafAt m r v).ppn =
      ∑ i ∈ Finset.range USERTOP, leafUse (leafAt m r (0 + i)) (leafAt m r v).ppn := rfl
  have hsplit := Finset.add_sum_erase (Finset.range USERTOP)
    (fun i => leafUse (leafAt m r (0 + i)) (leafAt m r v).ppn) (Finset.mem_range.mpr hv)
  have hrest := Finset.single_le_sum
    (f := fun i => leafUse (leafAt m r (0 + i)) (leafAt m r v).ppn)
    (s := (Finset.range USERTOP).erase v) (fun _ _ => Nat.zero_le _)
    (Finset.mem_erase.mpr ⟨fun h => hne h.symm, Finset.mem_range.mpr hw⟩)
  have hfirst : leafUse (leafAt m r (0 + v)) (leafAt m r v).ppn = 1 := by
    rw [Nat.zero_add, leafUse_of_valid hvv, one_self]
  have hsecond : leafUse (leafAt m r (0 + w)) (leafAt m r v).ppn = 1 := by
    rw [Nat.zero_add, leafUse_of_valid hwv, heq, one_self]
  omega

theorem leaf_mapped (hv : v < USERTOP) (hvalid : (leafAt m r v).v = true) :
    1 <= mappedIn (leafAt m r) 0 USERTOP (leafAt m r v).ppn := by
  have hle := Finset.single_le_sum
    (f := fun i => leafUse (leafAt m r (0 + i)) (leafAt m r v).ppn)
    (s := Finset.range USERTOP) (fun _ _ => Nat.zero_le _) (Finset.mem_range.mpr hv)
  have hself : leafUse (leafAt m r (0 + v)) (leafAt m r v).ppn = 1 := by
    rw [Nat.zero_add, leafUse_of_valid hvalid, one_self]
  have hsum : mappedIn (leafAt m r) 0 USERTOP (leafAt m r v).ppn =
      ∑ i ∈ Finset.range USERTOP, leafUse (leafAt m r (0 + i)) (leafAt m r v).ppn := rfl
  omega

theorem leaf_in_use (hv : v < USERTOP) (hvalid : (leafAt m r v).v = true) :
    1 <= use m r (leafAt m r v).ppn :=
  (leaf_mapped hv hvalid).trans (Nat.le_add_left _ _)

theorem leaf_apart (hgood : Good m (use m r)) (hv : v < USERTOP)
    (hvalid : (leafAt m r v).v = true) :
    nodes m r (leafAt m r v).ppn + m.free.count (leafAt m r v).ppn = 0 := by
  have hone := hgood.le_one (leafAt m r v).ppn
  have huse : use m r (leafAt m r v).ppn =
      nodes m r (leafAt m r v).ppn + mappedIn (leafAt m r) 0 USERTOP (leafAt m r v).ppn := rfl
  have hmapped := leaf_mapped hv hvalid
  omega

theorem leaf_not_free (hgood : Good m (use m r)) (hv : v < USERTOP)
    (hvalid : (leafAt m r v).v = true) : (leafAt m r v).ppn ∉ m.free := by
  intro hmem
  have hcount := List.count_pos_iff.mpr hmem
  have hone := hgood.le_one (leafAt m r v).ppn
  have huse := leaf_in_use hv hvalid
  omega

def New (x y : Ram) (r : Page) (v : Nat) : Prop :=
  v < VPNS ∧ (leafAt x.kmem r v).v = false ∧ (leafAt y.kmem r v).v = true

/-- The page and the offset that a user address stands for. -/
def place (y : Ram) (r : Page) (a : Nat) : Page × Nat :=
  ((leafAt y.kmem r (a / PGSIZE)).ppn, a % PGSIZE)

/-- The user bytes from `a` on are the first `k` of `src`, and if `write` they have just been
stored.  The pages that were not mapped before are zero elsewhere, and all others are as they
were. -/
structure Moved (write : Bool) (x y : Ram) (sz : Nat) (r : Page) (a k : Nat)
    (src : Nat -> UInt8) : Prop where
  faulted : Faulted x.kmem y.kmem r (pages sz)
  free : y.kmem.free <:+ x.kmem.free
  page : forall i, i < k -> (a + i) / PGSIZE < USERTOP ∧
    (leafAt y.kmem r ((a + i) / PGSIZE)).v = true ∧
    (leafAt y.kmem r ((a + i) / PGSIZE)).u = true ∧
    (write = true -> (leafAt y.kmem r ((a + i) / PGSIZE)).w = true)
  byte : forall i, i < k -> y.data (place y r (a + i)).1 (place y r (a + i)).2 = src i
  new : forall v, New x y r v -> (leafAt y.kmem r v).ppn ∈ x.kmem.free ∧
    (exists i, i < k ∧ (a + i) / PGSIZE = v) ∧
    forall j, (write = true -> forall i, i < k ->
      place y r (a + i) ≠ ((leafAt y.kmem r v).ppn, j)) ->
      y.data (leafAt y.kmem r v).ppn j = 0
  frame : forall q j, (write = true -> forall i, i < k -> place y r (a + i) ≠ (q, j)) ->
    (forall v, New x y r v -> (leafAt y.kmem r v).ppn ≠ q) -> y.data q j = x.data q j

theorem Moved.refl (write : Bool) (hinner : Inner x.kmem r) (a : Nat) (src : Nat -> UInt8) :
    Moved write x x sz r a 0 src where
  faulted := Faulted.refl _ hinner
  free := List.suffix_rfl
  page := nofun
  byte := nofun
  new := by
    rintro v ⟨_, hno, hyes⟩
    rw [hno] at hyes
    cases hyes
  frame := fun _ _ _ _ => rfl

theorem Moved.congr {src' : Nat -> UInt8}
    (h : Moved write x y sz r a k src) (heq : forall i, i < k -> src' i = src i) :
    Moved write x y sz r a k src' :=
  { h with
    byte := fun i hi => (h.byte i hi).trans (heq i hi).symm }

theorem Faulted.leaf_of_valid {m' : Kmem} (h : Faulted m m' r n) (hv : v < VPNS)
    (hvalid : (leafAt m r v).v = true) : leafAt m' r v = leafAt m r v := by
  rcases h.leaf v hv with heq | ⟨_, hno, _⟩
  · exact heq
  · rw [hno] at hvalid
    cases hvalid

theorem Moved.trans (hgood : Good x.kmem (use x.kmem r)) (h : Moved write x y sz r a n src)
    (h' : Moved write y z sz r (a + n) k (fun j => src (n + j))) :
    Moved write x z sz r a (n + k) src := by
  have htop := USERTOP_le
  have hgoody := hgood.conserve h.faulted.conserve
  have hgoodz := hgoody.conserve h'.faulted.conserve
  have hkept : forall i, i < n -> place z r (a + i) = place y r (a + i) := by
    intro i hi
    rcases h.page i hi with ⟨hlt, hvalid, _, _⟩
    rw [place, place, h'.faulted.leaf_of_valid (by omega) hvalid]
  have hnew : forall v, New y z r v -> New x z r v := by
    rintro v ⟨hv, hno, hyes⟩
    refine ⟨hv, ?_, hyes⟩
    rw [← Bool.not_eq_true]
    intro hvalid
    rw [h.faulted.leaf_of_valid hv hvalid, hvalid] at hno
    cases hno
  have hold : forall v, New x y r v -> New x z r v ∧ leafAt z.kmem r v = leafAt y.kmem r v := by
    rintro v ⟨hv, hno, hyes⟩
    have hleaf := h'.faulted.leaf_of_valid hv hyes
    refine ⟨⟨hv, hno, ?_⟩, hleaf⟩
    rw [hleaf]
    exact hyes
  have hapart : forall v w, v < USERTOP -> (leafAt y.kmem r v).v = true -> New y z r w ->
      (leafAt z.kmem r w).ppn ≠ (leafAt y.kmem r v).ppn := by
    intro v w hv hvalid hw heq
    refine leaf_not_free hgoody hv hvalid ?_
    rw [← heq]
    exact (h'.new w hw).1
  have hwrote : forall i, i < k -> n + i < n + k := fun i hi => Nat.add_lt_add_left hi n
  have hshift : forall i, a + n + i = a + (n + i) := fun i => Nat.add_assoc a n i
  refine ⟨h.faulted.trans h'.faulted, h'.free.trans h.free, ?_, ?_, ?_, ?_⟩
  · intro i hi
    by_cases hin : i < n
    · rcases h.page i hin with ⟨hlt, hvalid, hrest⟩
      rw [h'.faulted.leaf_of_valid (by omega) hvalid]
      exact ⟨hlt, hvalid, hrest⟩
    · have hpage := h'.page (i - n) (by omega)
      rw [hshift, Nat.add_sub_cancel' (by omega)] at hpage
      exact hpage
  · intro i hi
    by_cases hin : i < n
    · rcases h.page i hin with ⟨hlt, hvalid, _, _⟩
      rw [hkept i hin, h'.frame, h.byte i hin]
      · intro _ i' hi' heq
        rcases h'.page i' hi' with ⟨hlt', hvalid', _, _⟩
        have hppn := congrArg Prod.fst heq
        have hoff := congrArg Prod.snd heq
        dsimp only [place] at hppn hoff
        rw [← h'.faulted.leaf_of_valid (by omega) hvalid] at hppn
        have hvz : (leafAt z.kmem r ((a + i) / PGSIZE)).v = true := by
          rw [h'.faulted.leaf_of_valid (by omega) hvalid]
          exact hvalid
        have hsame := leaf_inj hgoodz hlt' hlt hvalid' hvz hppn
        unfold PGSIZE at hsame hoff
        omega
      · intro w hw
        exact hapart _ w hlt hvalid hw
    · have hbyte := h'.byte (i - n) (by omega)
      rw [hshift, Nat.add_sub_cancel' (by omega)] at hbyte
      exact hbyte
  · intro v hv
    by_cases hvalid : (leafAt y.kmem r v).v = true
    · have hnewy : New x y r v := ⟨hv.1, hv.2.1, hvalid⟩
      rcases h.new v hnewy with ⟨hfree, ⟨i, hi, hiv⟩, hzero⟩
      have hleaf := (hold v hnewy).2
      have huser : v < USERTOP := by
        rw [← hiv]
        exact (h.page i hi).1
      rw [hleaf]
      refine ⟨hfree, ⟨i, by omega, hiv⟩, ?_⟩
      intro j hj
      rw [h'.frame, hzero j]
      · intro hw i' hi'
        rw [← hkept i' hi']
        exact hj hw i' (by omega)
      · intro hw i' hi'
        rw [hshift]
        exact hj hw (n + i') (hwrote i' hi')
      · intro w hw
        exact hapart v w huser hvalid hw
    · have hnewz : New y z r v := ⟨hv.1, by simpa using hvalid, hv.2.2⟩
      rcases h'.new v hnewz with ⟨hfree, ⟨i, hi, hiv⟩, hzero⟩
      refine ⟨h.free.subset hfree, ⟨n + i, hwrote i hi, ?_⟩, ?_⟩
      · rw [← hshift]
        exact hiv
      · intro j hj
        refine hzero j ?_
        intro hw i' hi'
        rw [hshift]
        exact hj hw (n + i') (hwrote i' hi')
  · intro q j hq hnewq
    rw [h'.frame, h.frame]
    · intro hw i hi
      rw [← hkept i hi]
      exact hq hw i (by omega)
    · intro v hv
      rcases hold v hv with ⟨hvz, hleaf⟩
      rw [← hleaf]
      exact hnewq v hvz
    · intro hw i hi
      rw [hshift]
      exact hq hw (n + i) (hwrote i hi)
    · intro v hv
      exact hnewq v (hnew v hv)

theorem chunk_page {i : Nat} (hn : n <= PGSIZE - a % PGSIZE) (hi : i < n) :
    (a + i) / PGSIZE = a / PGSIZE ∧ (a + i) % PGSIZE = a % PGSIZE + i := by
  unfold PGSIZE at *
  omega

theorem Touched.user {pa : Page} (hspace : Space x.kmem trampoline trapframe r (pages sz))
    (hsz : sz <= TRAPFRAME) (h : Touched x sz r v y (some pa)) : v < pages sz ∧ v < USERTOP := by
  have hbound := hspace.bound
  have htop := USERTOP_le
  have hlt : v < pages sz := by
    cases h with
    | mapped hv hvalid huser => exact hspace.user_lt (by omega) hvalid huser
    | fresh hlt =>
      have hvpn := vpn_lt_pages hlt hsz
      rw [(page_addr v).2] at hvpn
      exact hvpn
  exact ⟨hlt, Nat.lt_of_lt_of_le hlt hbound⟩

theorem Touched.moved {pa : Page}
    (hspace : Space x.kmem trampoline trapframe r (pages sz)) (hsz : sz <= TRAPFRAME)
    (hn : n <= PGSIZE - a % PGSIZE) (hpos : 0 < n) (h : Touched x sz r (a / PGSIZE) y (some pa)) :
    (leafAt y.kmem r (a / PGSIZE)).ppn = pa ∧
      Moved false x y sz r a n (fun i => y.data pa (a % PGSIZE + i)) := by
  have huser := h.user hspace hsz
  have htop := USERTOP_le
  cases h with
  | mapped hv hvalid hu =>
    refine ⟨rfl, Faulted.refl _ hspace.inner, List.suffix_rfl, ?_, ?_, ?_, fun _ _ _ _ => rfl⟩
    · intro i hi
      rw [(chunk_page hn hi).1]
      exact ⟨huser.2, hvalid, hu, nofun⟩
    · intro i hi
      rw [place, (chunk_page hn hi).1, (chunk_page hn hi).2]
    · rintro w ⟨_, hno, hyes⟩
      rw [hno] at hyes
      cases hyes
  | @fresh m _ _ hinvalid _ hmem hfree hplaced hleaf =>
    have hmine : leafAt m r (a / PGSIZE) =
        Perm.pte { r := true, w := true, x := false, u := true } pa := by
      rw [hleaf _ (by omega), if_pos rfl]
    have hnew : forall w, New x
        {
          kmem := m
          data := update x.data pa fun _ => 0
        } r w -> w = a / PGSIZE := by
      rintro w ⟨hw, hno, hyes⟩
      by_contra hne
      dsimp only at hyes
      rw [hleaf w hw, if_neg hne, hno] at hyes
      cases hyes
    refine ⟨by rw [hmine]; rfl, ⟨hplaced.conserve, hplaced.inner, ?_⟩, hfree, ?_, ?_, ?_, ?_⟩
    · intro w hw
      by_cases heq : w = a / PGSIZE
      · subst heq
        refine Or.inr ⟨huser.1, hinvalid, ?_⟩
        dsimp only
        rw [hmine]
        rfl
      · exact Or.inl (by rw [hleaf w hw, if_neg heq])
    · intro i hi
      dsimp only
      rw [(chunk_page hn hi).1, hmine]
      exact ⟨huser.2, rfl, rfl, nofun⟩
    · intro i hi
      dsimp only [place]
      rw [(chunk_page hn hi).1, (chunk_page hn hi).2, hmine]
      rfl
    · intro w hw
      have heq := hnew w hw
      subst heq
      dsimp only
      rw [hmine]
      refine ⟨hmem, ⟨0, hpos, rfl⟩, ?_⟩
      intro j _
      simp [Perm.pte]
    · intro q j _ hq
      have hne : pa ≠ q := by
        have hself := hq (a / PGSIZE) ⟨by omega, hinvalid, by dsimp only; rw [hmine]; rfl⟩
        dsimp only at hself
        rw [hmine] at hself
        exact hself
      dsimp only
      rw [update_of_ne hne.symm]

theorem Moved.store {bytes : Nat -> UInt8} (hn : n <= PGSIZE - a % PGSIZE)
    (h : Moved false x y sz r a n bytes) (hw : (leafAt y.kmem r (a / PGSIZE)).w = true) :
    Moved true x (y.store (leafAt y.kmem r (a / PGSIZE)).ppn (a % PGSIZE) n src) sz r a n src := by
  -- a byte of the page is outside the range exactly if it is not one of those stored
  have hout : forall q j, (forall i, i < n -> place y r (a + i) ≠ (q, j)) ->
      (y.store (leafAt y.kmem r (a / PGSIZE)).ppn (a % PGSIZE) n src).data q j = y.data q j := by
    intro q j hne
    unfold Ram.store
    dsimp only
    rcases eq_or_ne q (leafAt y.kmem r (a / PGSIZE)).ppn with rfl | hq
    · rw [update_self, if_neg]
      rintro ⟨hlo, hhi⟩
      have hi : j - a % PGSIZE < n := by omega
      have hchunk := chunk_page hn hi
      apply hne (j - a % PGSIZE) hi
      rw [place, hchunk.1, hchunk.2, Nat.add_sub_cancel' hlo]
    · rw [update_of_ne hq]
  refine ⟨h.faulted, h.free, ?_, ?_, ?_, ?_⟩
  · intro i hi
    rcases h.page i hi with ⟨hlt, hvalid, huser, _⟩
    refine ⟨hlt, hvalid, huser, ?_⟩
    intro _
    rw [(chunk_page hn hi).1]
    exact hw
  · intro i hi
    dsimp only [place, Ram.store]
    rw [(chunk_page hn hi).1, (chunk_page hn hi).2, update_self, if_pos (by omega),
      Nat.add_sub_cancel_left]
  · intro v hv
    rcases h.new v hv with ⟨hfree, hrange, hzero⟩
    refine ⟨hfree, hrange, ?_⟩
    intro j hj
    have hbyte := hout (leafAt y.kmem r v).ppn j (hj rfl)
    rw [hzero j nofun] at hbyte
    exact hbyte
  · intro q j hq hnew
    rw [hout q j (hq rfl)]
    exact h.frame q j nofun hnew

/-!
## The loops
-/

/-- A turn that finds no page to use leaves the pages of memory that were not free as they were,
and every mapping. -/
structure Stopped (x y : Ram) (r : Page) : Prop where
  placed : Placed x.kmem y.kmem r
  leaf : forall w, w < VPNS -> leafAt y.kmem r w = leafAt x.kmem r w
  data : forall q, q ∉ x.kmem.free -> y.data q = x.data q

/-- How a copy of `len` bytes ends.  `Ran k z`: the copy of the first `k` alone returns 0, in
state `z`. -/
inductive Outcome (write : Bool) (Ran : Nat -> Ram -> Prop) (x : Ram) (sz : Nat) (r : Page)
    (a len : Nat) (src : Nat -> UInt8) (y : Ram) : Bool -> Nat -> Prop where
  | all : Moved write x y sz r a len src ->
      (forall k z, k < len -> (k = 0 ∨ (a + k) % PGSIZE = 0) -> Ran k z ->
        Usable write z.kmem sz r ((a + k) / PGSIZE)) ->
      Outcome write Ran x sz r a len src y true len
  | stopped {k : Nat} {z : Ram} : k < len -> (k = 0 ∨ (a + k) % PGSIZE = 0) -> Ran k z ->
      Moved write x z sz r a k src -> ¬ Usable write z.kmem sz r ((a + k) / PGSIZE) ->
      Stopped z y r -> Outcome write Ran x sz r a len src y false k

theorem Outcome.congr {src' : Nat -> UInt8} (h : Outcome write Ran x sz r a len src y done k)
    (heq : forall i, i < k -> src' i = src i) : Outcome write Ran x sz r a len src' y done k := by
  cases h with
  | all hmoved hall => exact .all (hmoved.congr heq) hall
  | stopped hk halign hran hmoved hno hstopped =>
    exact .stopped hk halign hran (hmoved.congr heq) hno hstopped

theorem Outcome.cons {Ran' : Nat -> Ram -> Prop} (hgood : Good x.kmem (use x.kmem r))
    (hn : n = PGSIZE - a % PGSIZE) (hlt : n <= len)
    (husable : Usable write x.kmem sz r (a / PGSIZE)) (hfirst : Moved write x y sz r a n src)
    (hzero : forall z, Ran 0 z -> z = x) (hran : forall k z, n <= k -> (Ran k z <-> Ran' (k - n) z))
    (hrest : Outcome write Ran' y sz r (a + n) (len - n) (fun j => src (n + j)) z done k) :
    Outcome write Ran x sz r a len src z done (n + k) := by
  have hadd : forall k, a + n + k = a + (n + k) := fun k => Nat.add_assoc a n k
  cases hrest with
  | all hmoved hall =>
    have hmoved' := hfirst.trans hgood hmoved
    rw [Nat.add_sub_cancel' hlt] at hmoved' ⊢
    refine .all hmoved' ?_
    intro k w hk halign hw
    by_cases hk0 : k = 0
    · subst hk0
      rw [hzero w hw]
      exact husable
    · -- the next page starts at `n`
      have hnk : n <= k := by
        unfold PGSIZE at halign hn
        omega
      have h := hall (k - n) w (by omega) (by rw [hadd, Nat.add_sub_cancel' hnk]; omega)
        ((hran k w hnk).mp hw)
      rw [hadd, Nat.add_sub_cancel' hnk] at h
      exact h
  | @stopped k w hk halign hw hmoved hno hstopped =>
    refine .stopped (z := w) (by omega) ?_ ?_ (hfirst.trans hgood hmoved) ?_ hstopped
    · right
      rw [← hadd]
      rcases halign with rfl | halign
      · unfold PGSIZE at hn ⊢
        omega
      · exact halign
    · rw [hran (n + k) w (by omega), Nat.add_sub_cancel_left]
      exact hw
    · rw [← hadd]
      exact hno

theorem Outcome.last (hn : len <= PGSIZE - a % PGSIZE)
    (husable : Usable write x.kmem sz r (a / PGSIZE)) (hmoved : Moved write x y sz r a len src)
    (hzero : forall z, Ran 0 z -> z = x) : Outcome write Ran x sz r a len src y true len := by
  refine .all hmoved ?_
  intro k z hk halign hz
  have hk0 : k = 0 := by
    unfold PGSIZE at hn halign
    omega
  subst hk0
  rw [hzero z hz]
  exact husable

theorem pgrounddown_sub (a : Nat) : a - pgrounddown a = a % PGSIZE := by
  rw [(pgrounddown_eq a).1]
  unfold PGSIZE
  omega

theorem next_address (h : a / PGSIZE < USERTOP) :
    (pgrounddown a + PGSIZE) % 2 ^ 64 = a + (PGSIZE - a % PGSIZE) := by
  rw [(pgrounddown_eq a).1]
  unfold USERTOP TRAPFRAME TRAMPOLINE MAXVA PGSIZE at *
  omega

theorem Usable.of_write (h : Usable write m sz r v) :
    Usable false m sz r v := by
  rcases h with ⟨hv, hvalid, huser, _⟩ | h
  · exact Or.inl ⟨hv, hvalid, huser, nofun⟩
  · exact Or.inr h

theorem not_usable_of_high (hsz : sz <= TRAPFRAME)
    (ha : MAXVA <= pgrounddown a) : ¬ Usable write m sz r (a / PGSIZE) := by
  rw [(pgrounddown_eq a).1] at ha
  have hmax := MAXVA_eq
  rintro (⟨hv, _⟩ | ⟨hlt, _⟩)
  · have := Nat.mul_lt_mul_of_pos_right hv (show 0 < PGSIZE by decide)
    omega
  · have : TRAPFRAME <= MAXVA := by decide
    omega

theorem chunk_pos (a : Nat) (h : 0 < len) : 0 < min (PGSIZE - a % PGSIZE) len := by
  unfold PGSIZE
  omega

namespace Ram

theorem copyoutLoop_turns (p : MyProc) {turns turns' len : Nat} (h : len <= turns)
    (h' : len <= turns') (x : Ram) (src : Nat -> UInt8) (a : Nat) :
    copyoutLoop p r turns x src a len = copyoutLoop p r turns' x src a len := by
  induction turns generalizing turns' x src a len with
  | zero =>
    have hlen : len = 0 := Nat.le_zero.mp h
    subst hlen
    cases turns' <;> rfl
  | succ turns ih =>
    by_cases hlen : len = 0
    · subst hlen
      cases turns' <;> rfl
    · have hchunk := chunk_pos a (Nat.pos_of_ne_zero hlen)
      cases turns' with
      | zero => omega
      | succ turns' =>
        simp only [copyoutLoop, pgrounddown_sub]
        rw [if_neg hlen, if_neg hlen]
        refine congrArg (ite _ _) ?_
        refine congrArg (Except.bind _) ?_
        funext res
        cases res.2 with
        | none => rfl
        | some pa =>
          refine congrArg (Except.bind _) ?_
          funext loc
          rcases loc with ⟨_, _ | ⟨q, i⟩⟩
          · rfl
          · dsimp only
            rw [@ih turns' _ (by omega) (by omega)]

theorem copyinLoop_turns (p : MyProc) {turns turns' len : Nat} (h : len <= turns)
    (h' : len <= turns') (x : Ram) (a : Nat) :
    copyinLoop p r turns x a len = copyinLoop p r turns' x a len := by
  induction turns generalizing turns' x a len with
  | zero =>
    have hlen : len = 0 := Nat.le_zero.mp h
    subst hlen
    cases turns' <;> rfl
  | succ turns ih =>
    by_cases hlen : len = 0
    · subst hlen
      cases turns' <;> rfl
    · have hchunk := chunk_pos a (Nat.pos_of_ne_zero hlen)
      cases turns' with
      | zero => omega
      | succ turns' =>
        simp only [copyinLoop, pgrounddown_sub]
        rw [if_neg hlen, if_neg hlen]
        refine congrArg (Except.bind _) ?_
        funext res
        cases res.2 with
        | none => rfl
        | some pa =>
          dsimp only
          rw [@ih turns' _ (by omega) (by omega)]

section

variable (hsz : sz <= TRAPFRAME) (hspace : Space x.kmem trampoline trapframe r (pages sz))
  (hgood : Good x.kmem (use x.kmem r))
include hsz hspace hgood

theorem copyout_turn (src : Nat -> UInt8) {a n : Nat} (hpos : 0 < n)
    (hn : n <= PGSIZE - a % PGSIZE) :
    (Usable true x.kmem sz r (a / PGSIZE) ∧ exists y, Moved true x y sz r a n src ∧
      forall len, min (PGSIZE - a % PGSIZE) len = n ->
        x.copyout ⟨r, sz⟩ r a src len =
          y.copyout ⟨r, sz⟩ r (a + (PGSIZE - a % PGSIZE))
            (fun j => src (n + j)) (len - n)) ∨
    (¬ Usable true x.kmem sz r (a / PGSIZE) ∧ exists y, Stopped x y r ∧ forall len,
      x.copyout ⟨r, sz⟩ r a src (len + 1) = .ok (y, false)) := by
  have hinner := hspace.inner
  by_cases hmax : pgrounddown a >= MAXVA
  · refine Or.inr ⟨not_usable_of_high hsz hmax, x,
      ⟨⟨Conserve.refl _ _, hinner⟩, fun _ _ => rfl, fun _ _ => rfl⟩, ?_⟩
    intro len
    rw [copyout, copyoutLoop, if_neg (Nat.succ_ne_zero len)]
    dsimp only
    rw [if_pos hmax]
    rfl
  · have hva : pgrounddown a < MAXVA := Nat.not_le.mp hmax
    rcases touch_touched hsz hinner hgood (a / PGSIZE) with ⟨y, res, htouch, htouched⟩
    rw [← (pgrounddown_eq a).1] at htouch
    cases res with
    | none =>
      cases htouched with
      | refused hno hplaced hleaf hdata =>
        refine Or.inr ⟨fun h => hno h.of_write, y, ⟨hplaced, hleaf, hdata⟩, ?_⟩
        intro len
        rw [copyout, copyoutLoop, if_neg (Nat.succ_ne_zero len)]
        dsimp only
        rw [if_neg hmax, htouch]
        rfl
    | some pa =>
      have huser := htouched.user hspace hsz
      rcases htouched.moved hspace hsz hn hpos with ⟨hpa, hmoved⟩
      have hvalid : (leafAt y.kmem r (a / PGSIZE)).v = true := (hmoved.page 0 hpos).2.1
      rcases locate_of_valid hvalid with ⟨⟨q, i⟩, hloc⟩
      have hentry := leafAt_of_locate hloc
      have hwalk : walk y.kmem r (pgrounddown a) false = .ok (y.kmem, some (q, i)) := by
        rw [walk_false hva, (pgrounddown_eq a).2, hloc]
      by_cases hw : (leafAt y.kmem r (a / PGSIZE)).w = true
      · left
        refine ⟨?_, _, hmoved.store hn hw, ?_⟩
        · cases htouched with
          | mapped hv hvalid hu => exact Or.inl ⟨hv, hvalid, hu, fun _ => hw⟩
          | fresh hlt hinvalid henough => exact Or.inr ⟨hlt, hinvalid, henough⟩
        · intro len hmin
          cases len with
          | zero => omega
          | succ len =>
            rw [copyout, copyoutLoop, if_neg (Nat.succ_ne_zero len)]
            dsimp only
            rw [if_neg hmax, htouch]
            simp only [bind, Except.bind, hwalk]
            rw [← hentry, hw, pgrounddown_sub, hmin, next_address huser.2, hpa, copyout]
            exact copyoutLoop_turns _ (by omega) (Nat.le_refl _) _ _ _
      · right
        cases htouched with
        | mapped hv hvalid hu =>
          refine ⟨?_, x, ⟨⟨Conserve.refl _ _, hinner⟩, fun _ _ => rfl, fun _ _ => rfl⟩, ?_⟩
          · rintro (⟨_, _, _, hwrite⟩ | ⟨_, hinvalid, _⟩)
            · exact hw (hwrite rfl)
            · rw [hvalid] at hinvalid
              cases hinvalid
          · intro len
            rw [copyout, copyoutLoop, if_neg (Nat.succ_ne_zero len)]
            dsimp only
            rw [if_neg hmax, htouch]
            simp only [bind, Except.bind, hwalk]
            rw [← hentry, Bool.eq_false_iff.mpr hw]
            rfl
        | fresh _ _ _ _ _ _ hleaf =>
          have htop := USERTOP_le
          refine absurd ?_ hw
          dsimp only
          rw [hleaf _ (by omega), if_pos rfl]
          rfl

theorem copyout_outcome (a len : Nat) (src : Nat -> UInt8) :
    exists y done k, x.copyout ⟨r, sz⟩ r a src len = .ok (y, done) ∧
      Outcome true (fun k z => x.copyout ⟨r, sz⟩ r a src k = .ok (z, true))
        x sz r a len src y done k := by
  have hzero : forall (x : Ram) (src : Nat -> UInt8) (a : Nat) (z : Ram),
      x.copyout ⟨r, sz⟩ r a src 0 = .ok (z, true) -> z = x := by
    intro x src a z h
    cases h
    rfl
  induction len using Nat.strong_induction_on generalizing x a src with
  | _ len ih =>
    by_cases hlen : len = 0
    · subst hlen
      exact ⟨x, true, 0, rfl, .all (Moved.refl true hspace.inner a src) nofun⟩
    · have hpos := chunk_pos a (Nat.pos_of_ne_zero hlen)
      rcases copyout_turn hsz hspace hgood src hpos (Nat.min_le_left _ _) with
        ⟨husable, y, hmoved, hturn⟩ | ⟨hno, y, hstopped, hturn⟩
      · by_cases hlast : len <= PGSIZE - a % PGSIZE
        · rw [Nat.min_eq_right hlast] at hmoved hturn
          refine ⟨y, true, len, ?_, .last hlast husable hmoved (hzero x src a)⟩
          rw [hturn len (Nat.min_eq_right hlast), Nat.sub_self]
          rfl
        · have hmin : min (PGSIZE - a % PGSIZE) len = PGSIZE - a % PGSIZE :=
            Nat.min_eq_left (by omega)
          rw [hmin] at hmoved hturn hpos
          rcases ih (len - (PGSIZE - a % PGSIZE)) (by omega)
            (hspace.faulted hmoved.faulted) (hgood.conserve hmoved.faulted.conserve)
            (a + (PGSIZE - a % PGSIZE)) (fun j => src (PGSIZE - a % PGSIZE + j)) with
            ⟨z, done, k, hrun, hrest⟩
          refine ⟨z, done, _, ?_, .cons hgood rfl (by omega) husable hmoved (hzero x src a) ?_
            hrest⟩
          · rw [hturn len hmin]
            exact hrun
          · intro k w hk
            rw [hturn k (Nat.min_eq_left hk)]
      · obtain ⟨len, rfl⟩ := Nat.exists_eq_succ_of_ne_zero hlen
        exact ⟨y, false, 0, hturn len, .stopped len.succ_pos (Or.inl rfl) rfl
          (Moved.refl true hspace.inner a src) hno hstopped⟩

theorem copyin_turn {a n : Nat} (hpos : 0 < n) (hn : n <= PGSIZE - a % PGSIZE) :
    (Usable false x.kmem sz r (a / PGSIZE) ∧ exists y, exists pa : Page,
      Moved false x y sz r a n (fun i => y.data pa (a % PGSIZE + i)) ∧
      forall len, min (PGSIZE - a % PGSIZE) len = n ->
        x.copyin ⟨r, sz⟩ r a len =
          (y.copyin ⟨r, sz⟩ r (a + (PGSIZE - a % PGSIZE)) (len - n)).map
            fun res => (res.1, res.2.1,
              ((List.range n).map fun j => y.data pa (a % PGSIZE + j)) ++ res.2.2)) ∨
    (¬ Usable false x.kmem sz r (a / PGSIZE) ∧ exists y, Stopped x y r ∧ forall len,
      x.copyin ⟨r, sz⟩ r a (len + 1) = .ok (y, false, [])) := by
  rcases touch_touched hsz hspace.inner hgood (a / PGSIZE) with ⟨y, res, htouch, htouched⟩
  rw [← (pgrounddown_eq a).1] at htouch
  cases res with
  | none =>
    cases htouched with
    | refused hno hplaced hleaf hdata =>
      refine Or.inr ⟨hno, y, ⟨hplaced, hleaf, hdata⟩, ?_⟩
      intro len
      rw [copyin, copyinLoop, if_neg (Nat.succ_ne_zero len)]
      dsimp only
      rw [htouch]
      rfl
  | some pa =>
    have huser := htouched.user hspace hsz
    refine Or.inl ⟨?_, y, pa, (htouched.moved hspace hsz hn hpos).2, ?_⟩
    · cases htouched with
      | mapped hv hvalid hu => exact Or.inl ⟨hv, hvalid, hu, nofun⟩
      | fresh hlt hinvalid henough => exact Or.inr ⟨hlt, hinvalid, henough⟩
    · intro len hmin
      cases len with
      | zero => omega
      | succ len =>
        rw [copyin, copyinLoop, if_neg (Nat.succ_ne_zero len)]
        dsimp only
        rw [htouch]
        simp only [bind, Except.bind]
        rw [pgrounddown_sub, hmin, next_address huser.2, copyin,
          copyinLoop_turns _ (Nat.le_refl _) (by omega : len + 1 - n <= len)]
        cases copyinLoop _ r len y (a + (PGSIZE - a % PGSIZE)) (len + 1 - n) <;> rfl

theorem copyin_outcome (a len : Nat) :
    exists y done bytes, x.copyin ⟨r, sz⟩ r a len = .ok (y, done, bytes) ∧
      Outcome false (fun k z => exists bytes,
          x.copyin ⟨r, sz⟩ r a k = .ok (z, true, bytes))
        x sz r a len (fun i => bytes.getD i 0) y done bytes.length := by
  have hzero : forall (x : Ram) (a : Nat) (z : Ram),
      (exists bytes, x.copyin ⟨r, sz⟩ r a 0 = .ok (z, true, bytes)) ->
        z = x := by
    rintro x a z ⟨bytes, h⟩
    cases h
    rfl
  induction len using Nat.strong_induction_on generalizing x a with
  | _ len ih =>
    by_cases hlen : len = 0
    · subst hlen
      exact ⟨x, true, [], rfl, .all (Moved.refl false hspace.inner a _) nofun⟩
    · have hpos := chunk_pos a (Nat.pos_of_ne_zero hlen)
      rcases copyin_turn hsz hspace hgood hpos (Nat.min_le_left _ _) with
        ⟨husable, y, pa, hmoved, hturn⟩ | ⟨hno, y, hstopped, hturn⟩
      · by_cases hlast : len <= PGSIZE - a % PGSIZE
        · rw [Nat.min_eq_right hlast] at hmoved hturn
          refine ⟨y, true, (List.range len).map fun j => y.data pa (a % PGSIZE + j), ?_, ?_⟩
          · rw [hturn len (Nat.min_eq_right hlast), Nat.sub_self]
            change Except.ok (y, true, _ ++ []) = _
            rw [List.append_nil]
          · have hlength : ((List.range len).map
                fun j => y.data pa (a % PGSIZE + j)).length = len := by
              simp
            rw [hlength]
            refine .last hlast husable (hmoved.congr ?_) (hzero x a)
            intro i hi
            simp [hi]
        · have hmin : min (PGSIZE - a % PGSIZE) len = PGSIZE - a % PGSIZE :=
            Nat.min_eq_left (by omega)
          rw [hmin] at hmoved hturn hpos
          rcases ih (len - (PGSIZE - a % PGSIZE)) (by omega)
            (hspace.faulted hmoved.faulted) (hgood.conserve hmoved.faulted.conserve)
            (a + (PGSIZE - a % PGSIZE)) with ⟨z, done, bytes, hrun, hrest⟩
          refine ⟨z, done, ((List.range (PGSIZE - a % PGSIZE)).map
            fun j => y.data pa (a % PGSIZE + j)) ++ bytes, ?_, ?_⟩
          · rw [hturn len hmin, hrun]
            rfl
          · rw [List.length_append, List.length_map, List.length_range]
            refine .cons hgood rfl (by omega) husable (hmoved.congr ?_) (hzero x a) ?_
              (hrest.congr ?_)
            · intro i hi
              rw [List.getD_append _ _ _ _ (by simpa using hi)]
              simp [hi]
            · intro k w hk
              rw [hturn k (Nat.min_eq_left hk)]
              constructor
              · rintro ⟨bytes', h⟩
                rcases map_eq_ok.mp h with ⟨⟨w', done', bytes''⟩, hsub, heq⟩
                cases heq
                exact ⟨bytes'', hsub⟩
              · rintro ⟨bytes', h⟩
                rw [h]
                exact ⟨_, rfl⟩
            · intro i hi
              rw [List.getD_append_right _ _ _ _ (by simp)]
              simp
      · obtain ⟨len, rfl⟩ := Nat.exists_eq_succ_of_ne_zero hlen
        exact ⟨y, false, [], hturn len, .stopped len.succ_pos (Or.inl rfl) ⟨[], rfl⟩
          (Moved.refl false hspace.inner a _) hno hstopped⟩

end

end Ram

/-!
## Both directions
-/

/-- A copy of `len` bytes from or to `a` that returned `done` after `k` of them. -/
structure Exact (write : Bool) (Ran : Nat -> Ram -> Prop) (x : Ram) (sz : Nat) (r : Page)
    (a len : Nat) (src : Nat -> UInt8) (y : Ram) (done : Bool) (k : Nat) : Prop where
  moved : done = true -> k = len ∧ Moved write x y sz r a len src
  fails : done = false <-> exists k z, k < len ∧ (k = 0 ∨ (a + k) % PGSIZE = 0) ∧ Ran k z ∧
    ¬ Usable write z.kmem sz r ((a + k) / PGSIZE)
  part : done = false -> k < len ∧ exists z, Moved write x z sz r a k src ∧ Stopped z y r

theorem Outcome.exact (h : Outcome write Ran x sz r a len src y done k) :
    Exact write Ran x sz r a len src y done k := by
  cases h with
  | all hmoved hall =>
    refine ⟨fun _ => ⟨rfl, hmoved⟩, ⟨nofun, ?_⟩, nofun⟩
    rintro ⟨k, z, hk, halign, hran, hno⟩
    exact absurd (hall k z hk halign hran) hno
  | @stopped k z hk halign hran hmoved hno hstopped =>
    exact ⟨nofun, ⟨fun _ => ⟨k, z, hk, halign, hran, hno⟩, fun _ => rfl⟩,
      fun _ => ⟨hk, z, hmoved, hstopped⟩⟩

theorem copies_exact (hsz : sz <= TRAPFRAME)
    (hspace : Space x.kmem trampoline trapframe r (pages sz))
    (hgood : Good x.kmem (use x.kmem r)) (a len : Nat) (src : Nat -> UInt8) :
    (exists y done k, x.copyout ⟨r, sz⟩ r a src len = .ok (y, done) ∧
      Exact true (fun k z => x.copyout ⟨r, sz⟩ r a src k = .ok (z, true))
        x sz r a len src y done k) ∧
    exists y done bytes, x.copyin ⟨r, sz⟩ r a len = .ok (y, done, bytes) ∧
      Exact false (fun k z => exists bytes,
          x.copyin ⟨r, sz⟩ r a k = .ok (z, true, bytes))
        x sz r a len (fun i => bytes.getD i 0) y done bytes.length := by
  constructor
  · rcases Ram.copyout_outcome hsz hspace hgood a len src with ⟨y, done, k, hrun, hout⟩
    exact ⟨y, done, k, hrun, hout.exact⟩
  · rcases Ram.copyin_outcome hsz hspace hgood a len with ⟨y, done, bytes, hrun, hout⟩
    exact ⟨y, done, bytes, hrun, hout.exact⟩

end

def eightPages : Kmem where
  kend := 0x80020
  free := [0x87ff8, 0x87ff9, 0x87ffa, 0x87ffb, 0x87ffc, 0x87ffd, 0x87ffe, 0x87fff]
  entry := fun _ _ => Pte.zero

theorem eightPages_good : Good eightPages (fun _ => 0) := by
  have hnodup : eightPages.free.Nodup := by
    decide
  have hmanaged : forall q, q ∈ eightPages.free -> Managed eightPages q := by
    decide
  constructor
  · intro q
    have hle := List.nodup_iff_count_le_one.mp hnodup q
    omega
  · intro q hq
    exact hmanaged q (List.count_pos_iff.mp (by omega))

def lazyProc : Kmem × Page :=
  match procPagetable eightPages 0x80005 0x87000 with
  | .ok (m, some r) => (m, r)
  | _ => (eightPages, 0)

def lazyRam : Ram where
  kmem := lazyProc.1
  data := fun _ _ => 0

theorem lazyRam_space : Space lazyRam.kmem 0x80005 0x87000 lazyProc.2 (pages PGSIZE) ∧
    Good lazyRam.kmem (use lazyRam.kmem lazyProc.2) := by
  rcases procPagetable_spec 0x80005 0x87000 eightPages_good with ⟨m, res, hrun, _, hsome⟩
  have hcheck : passes (procPagetable eightPages 0x80005 0x87000) (fun r => r.2.isSome) = true := by
    decide +kernel
  obtain ⟨⟨m1, res1⟩, hrun1, hres⟩ := passes_eq_true.mp hcheck
  rw [hrun] at hrun1
  cases hrun1
  rcases Option.isSome_iff_exists.mp hres with ⟨r, rfl⟩
  have hproc : lazyProc = (m, r) := by
    rw [lazyProc, hrun]
  rcases hsome r rfl with ⟨hcons, hspace⟩
  rw [lazyRam, hproc]
  refine ⟨hspace.of_leaves _ hspace.inner (by decide) ?_ (fun _ _ _ => rfl),
    eightPages_good.conserve hcons⟩
  intro v _ hv
  exact hspace.unmapped v (Nat.zero_le v) hv

theorem copies_exact_lazy : exists x : Ram, exists r : Page,
    Space x.kmem 0x80005 0x87000 r (pages PGSIZE) ∧ Good x.kmem (use x.kmem r) ∧
    exists y done k, x.copyout { pagetable := r, sz := PGSIZE } r 4000 (fun _ => 7) 200 =
        .ok (y, done) ∧
      Exact true
        (fun k z => x.copyout { pagetable := r, sz := PGSIZE } r 4000 (fun _ => 7) k =
          .ok (z, true))
        x PGSIZE r 4000 200 (fun _ => 7) y done k :=
  ⟨lazyRam, lazyProc.2, lazyRam_space.1, lazyRam_space.2,
    (copies_exact (by decide) lazyRam_space.1 lazyRam_space.2 4000 200 (fun _ => 7)).1⟩

/-- The first touch of a page also writes the page table. -/
theorem copyout_changes_table : exists x y : Ram, exists r : Page,
    Space x.kmem 0x80005 0x87000 r (pages PGSIZE) ∧ Good x.kmem (use x.kmem r) ∧
    x.copyout { pagetable := r, sz := PGSIZE } r 0 (fun _ => 7) 1 = .ok (y, true) ∧
    r ∉ x.kmem.free ∧ r ≠ (leafAt y.kmem r 0).ppn ∧ y.kmem.entry r 0 ≠ x.kmem.entry r 0 := by
  have hcheck : passes (lazyRam.copyout { pagetable := lazyProc.2, sz := PGSIZE } lazyProc.2 0
      (fun _ => 7) 1) (fun r => decide (r.2 = true ∧ lazyProc.2 ∉ lazyRam.kmem.free ∧
        lazyProc.2 ≠ (leafAt r.1.kmem lazyProc.2 0).ppn ∧
        (r.1.kmem.entry lazyProc.2 0).v = true ∧
        (lazyRam.kmem.entry lazyProc.2 0).v = false)) = true := by
    decide +kernel
  obtain ⟨⟨y, _⟩, hrun, hcheck⟩ := passes_eq_true.mp hcheck
  rcases of_decide_eq_true hcheck with ⟨rfl, hfree, hleaf, hafter, hbefore⟩
  refine ⟨lazyRam, y, lazyProc.2, lazyRam_space.1, lazyRam_space.2, hrun, hfree, hleaf, ?_⟩
  intro heq
  rw [heq, hbefore] at hafter
  cases hafter

end Vm
end Xv6
