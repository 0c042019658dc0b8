import Xv6.Vm.Strings

/-!
# Lazy allocation

A page of user memory below `p->sz` need not be there yet.  Loads and stores of the user,
`copyin` and `copyout` see a page of zeroes in its place, as if it had been allocated at
once.  `copyinstr` does not, and neither does a user access behind `p->sz` in the last
page.
-/

namespace Xv6
namespace Vm

open Lib Function

/-!
## The rest of the code
-/

namespace Ram

variable {v va : Nat} {pa : Page} {p : MyProc} {write : Bool}

def fetchaddr (x : Ram) (p : MyProc) (addr : Nat) : Except Panic (Ram × Bool × List UInt8) :=
  if addr >= p.sz ∨ (addr + 8) % 2 ^ 64 > p.sz then
    return (x, false, [])
  else
    x.copyin p p.pagetable addr 8

def translate (x : Ram) (pagetable : Page) (write : Bool) (va : Nat) : Option Page :=
  let e := leafAt x.kmem pagetable (va / PGSIZE)
  if va < MAXVA ∧ e.v = true ∧ e.u = true ∧ (if write then e.w else e.r) = true then
    some e.ppn
  else
    none

/-- A load or store of the user.  On a page fault `usertrap` maps the page and returns to the
instruction, or it kills the process. -/
def userAccess (p : MyProc) (write : Bool) (va : Nat) : Nat -> Ram ->
    Except Panic (Ram × Option Page)
  | 0, x => return (x, none)
  | turns + 1, x =>
    match x.translate p.pagetable write va with
    | some pa => return (x, some pa)
    | none => do
        let (x, mem) ← x.vmfault p p.pagetable va
        match mem with
        -- `setkilled`
        | none => return (x, none)
        | some _ => userAccess p write va turns x

/-- A load of `n` bytes of one page; `none` if the process is killed. -/
def userLoad (x : Ram) (p : MyProc) (va n : Nat) : Except Panic (Ram × Option (List UInt8)) := do
  let (x, pa) ← userAccess p false va 2 x
  return (x, pa.map fun pa => x.bytes pa (va % PGSIZE) n)

/-- A store of `n` bytes to one page; the answer is whether the process lives on. -/
def userStore (x : Ram) (p : MyProc) (va n : Nat) (src : Nat -> UInt8) :
    Except Panic (Ram × Bool) := do
  let (x, pa) ← userAccess p true va 2 x
  match pa with
  | none => return (x, false)
  | some pa => return (x.store pa (va % PGSIZE) n src, true)

end Ram

/-!
## User memory
-/

abbrev UserMemory := Nat -> Option (Perm × (Nat -> UInt8))

def lazyPerm : Perm :=
  { r := true, w := true, x := false, u := true }

def Ram.seen (x : Ram) (sz : Nat) (r : Page) : UserMemory := fun v =>
  if USERTOP <= v then
    none
  else if (leafAt x.kmem r v).v = true then
    if (leafAt x.kmem r v).u = true then
      some ((leafAt x.kmem r v).perm, x.data (leafAt x.kmem r v).ppn)
    else
      none
  else if v * PGSIZE < sz then
    some (lazyPerm, fun _ => 0)
  else
    none

def Ram.unmapped (x : Ram) (sz : Nat) (r : Page) : Finset Nat :=
  (Finset.range (pages sz)).filter fun v => (leafAt x.kmem r v).v = false

/-- A process with enough free memory: a page for each one that is missing, and two tables. -/
structure Roomy (x : Ram) (trampoline trapframe : Page) (sz : Nat) (r : Page) : Prop where
  space : Space x.kmem trampoline trapframe r (pages sz)
  good : Good x.kmem (use x.kmem r)
  enough : 3 * (x.unmapped sz r).card <= x.kmem.free.length

section

variable {x y : Ram} {trampoline trapframe r : Page} {sz : Nat}

theorem seen_mapped (hv : v < USERTOP) (hvalid : (leafAt x.kmem r v).v = true)
    (huser : (leafAt x.kmem r v).u = true) :
    x.seen sz r v = some ((leafAt x.kmem r v).perm, x.data (leafAt x.kmem r v).ppn) := by
  unfold Ram.seen
  rw [if_neg (Nat.not_le.mpr hv), if_pos hvalid, if_pos huser]

theorem seen_lazy (hv : v < USERTOP) (hvalid : (leafAt x.kmem r v).v = false)
    (hlt : v * PGSIZE < sz) : x.seen sz r v = some (lazyPerm, fun _ => 0) := by
  unfold Ram.seen
  rw [if_neg (Nat.not_le.mpr hv), hvalid, if_neg (by decide), if_pos hlt]

theorem seen_congr (hsame : forall v, v < USERTOP -> leafAt y.kmem r v = leafAt x.kmem r v)
    (hdata : forall v, v < USERTOP -> (leafAt x.kmem r v).v = true ->
      y.data (leafAt x.kmem r v).ppn = x.data (leafAt x.kmem r v).ppn) :
    y.seen sz r = x.seen sz r := by
  funext v
  unfold Ram.seen
  by_cases hv : USERTOP <= v
  · rw [if_pos hv, if_pos hv]
  · rw [if_neg hv, if_neg hv, hsame v (Nat.not_le.mp hv)]
    by_cases hvalid : (leafAt x.kmem r v).v = true
    · rw [if_pos hvalid, if_pos hvalid, hdata v (Nat.not_le.mp hv) hvalid]
    · rw [if_neg hvalid, if_neg hvalid]

theorem lt_pages_iff (hsz : sz <= TRAPFRAME) : v * PGSIZE < sz <-> v < pages sz := by
  rw [pages_eq hsz]
  unfold PGSIZE
  omega

/-!
## Free pages
-/

theorem walkLoop_length (n : Nat) (m : Kmem) (r : Page) (va : Nat) :
    m.free.length <= (walkLoop true n m r va).1.free.length + n := by
  induction n generalizing m r with
  | zero => exact Nat.le_refl _
  | succ n ih =>
    simp only [walkLoop]
    split
    · have h := ih m (m.entry r (PX (n + 1) va)).ppn
      omega
    · cases halloc : kalloc m with
      | none => exact Nat.le_add_right _ _
      | some taken =>
        rcases taken with ⟨pg, m1⟩
        have hfree := (kalloc_conserve halloc (fun _ => 0)).2
        have h := ih (((m1.memset pg 0).set r (PX (n + 1) va) (Pte.link pg))) pg
        rw [hfree, List.length_cons]
        change m1.free.length <= _ at h
        simp only [Bool.not_true, Bool.false_eq_true, if_false]
        omega

theorem mappages_length {m m' : Kmem} {perm : Perm} {done : Bool}
    (hrun : mappages m r va PGSIZE pa perm = .ok (m', done)) :
    m.free.length <= m'.free.length + 2 := by
  rw [mappages_free_eq hrun]
  exact walkLoop_length 2 m r va

theorem vmfault_length (hrun : x.vmfault p r va = .ok (y, some pa)) :
    x.kmem.free.length <= y.kmem.free.length + 3 := by
  unfold Ram.vmfault at hrun
  split at hrun
  · cases hrun
  rcases bind_eq_ok.mp hrun with ⟨mapped, _, hrun⟩
  split at hrun
  · cases hrun
  cases halloc : kalloc x.kmem with
  | none =>
    simp only [Ram.kalloc, halloc, Option.map_none] at hrun
    cases hrun
  | some taken =>
    rcases taken with ⟨mem, m1⟩
    have hfree := (kalloc_conserve halloc (fun _ => 0)).2
    simp only [Ram.kalloc, halloc, Option.map_some] at hrun
    rcases bind_eq_ok.mp hrun with ⟨⟨z, done⟩, hmap, hrun⟩
    rcases map_eq_ok.mp hmap with ⟨⟨m2, done'⟩, hmap, heq⟩
    cases heq
    have hlength := mappages_length hmap
    change m1.free.length <= m2.free.length + 2 at hlength
    dsimp only at hrun
    split at hrun
    · cases hrun
      rw [hfree, List.length_cons]
      exact Nat.succ_le_succ hlength
    · rcases bind_eq_ok.mp hrun with ⟨_, _, hrun⟩
      cases hrun

/-!
## One page
-/

structure Page.Seen (x y : Ram) (sz : Nat) (r : Page) (v : Nat) (pa : Page) : Prop where
  lt : v < USERTOP
  valid : (leafAt y.kmem r v).v = true
  user : (leafAt y.kmem r v).u = true
  ppn : (leafAt y.kmem r v).ppn = pa
  seen : x.seen sz r v = some ((leafAt y.kmem r v).perm, y.data pa)

theorem touch_length (hrun : x.touch p r va = .ok (y, some pa)) :
    x.kmem.free.length <= y.kmem.free.length + 3 := by
  unfold Ram.touch at hrun
  rcases bind_eq_ok.mp hrun with ⟨res, _, hrun⟩
  cases res with
  | some pa0 =>
    cases hrun
    exact Nat.le_add_right _ _
  | none => exact vmfault_length hrun

section

variable (hsz : sz <= TRAPFRAME) (h : Roomy x trampoline trapframe sz r)
include hsz h

theorem Roomy.fresh {m : Kmem} (hlt : v * PGSIZE < sz) (hinvalid : (leafAt x.kmem r v).v = false)
    (hmem : pa ∈ x.kmem.free) (hplaced : Placed x.kmem m r)
    (hleaf : forall w, w < VPNS -> leafAt m r w =
      if w = v then lazyPerm.pte pa else leafAt x.kmem r w)
    (hlength : x.kmem.free.length <= m.free.length + 3) :
    Ram.seen { kmem := m, data := update x.data pa fun _ => 0 } sz r = x.seen sz r ∧
      Roomy { kmem := m, data := update x.data pa fun _ => 0 } trampoline trapframe sz r ∧
      Page.Seen x { kmem := m, data := update x.data pa fun _ => 0 } sz r v pa := by
  have hbound := h.space.bound
  have htop := USERTOP_le
  have hpage := (lt_pages_iff hsz).mp hlt
  have hmine : leafAt m r v = lazyPerm.pte pa := by
    rw [hleaf v (by omega), if_pos rfl]
  have hother : forall w, w < VPNS -> w ≠ v -> leafAt m r w = leafAt x.kmem r w := by
    intro w hw hne
    rw [hleaf w hw, if_neg hne]
  have hzero : update x.data pa (fun _ => 0) pa = fun _ => 0 := update_self _ _ _
  refine ⟨?_, ⟨h.space.faulted ⟨hplaced.conserve, hplaced.inner, ?_⟩,
    h.good.conserve hplaced.conserve, ?_⟩, ⟨by omega, ?_, ?_, ?_, ?_⟩⟩
  · funext w
    by_cases hw : w < USERTOP
    · rcases eq_or_ne w v with rfl | hne
      · rw [seen_lazy hw hinvalid hlt, seen_mapped hw]
        · dsimp only
          rw [hmine]
          exact congrArg some (Prod.ext rfl hzero)
        · dsimp only
          rw [hmine]
          rfl
        · dsimp only
          rw [hmine]
          rfl
      · unfold Ram.seen
        dsimp only
        rw [if_neg (Nat.not_le.mpr hw), if_neg (Nat.not_le.mpr hw), hother w (by omega) hne]
        by_cases hvalid : (leafAt x.kmem r w).v = true
        · have hpa : (leafAt x.kmem r w).ppn ≠ pa := by
            rintro rfl
            exact leaf_not_free h.good hw hvalid hmem
          rw [update_of_ne hpa]
        · rw [if_neg hvalid, if_neg hvalid]
    · unfold Ram.seen
      rw [if_pos (Nat.not_lt.mp hw), if_pos (Nat.not_lt.mp hw)]
  · intro w hw
    rcases eq_or_ne w v with rfl | hne
    · refine .inr ⟨hpage, hinvalid, ?_⟩
      rw [hmine]
      rfl
    · exact .inl (hother w hw hne)
  · have hset : Ram.unmapped { kmem := m, data := update x.data pa fun _ => 0 } sz r =
        (x.unmapped sz r).erase v := by
      ext w
      unfold Ram.unmapped
      rw [Finset.mem_erase, Finset.mem_filter, Finset.mem_filter, Finset.mem_range]
      dsimp only
      rcases eq_or_ne w v with rfl | hne
      · rw [hmine]
        simp [Perm.pte]
      · constructor
        · rintro ⟨hw, hno⟩
          rw [hother w (by omega) hne] at hno
          exact ⟨hne, hw, hno⟩
        · rintro ⟨_, hw, hno⟩
          rw [hother w (by omega) hne]
          exact ⟨hw, hno⟩
    have hin : v ∈ x.unmapped sz r := by
      unfold Ram.unmapped
      rw [Finset.mem_filter, Finset.mem_range]
      exact ⟨hpage, hinvalid⟩
    have hcard := Finset.card_erase_add_one hin
    have henough := h.enough
    rw [hset]
    dsimp only
    omega
  · dsimp only
    rw [hmine]
    rfl
  · dsimp only
    rw [hmine]
    rfl
  · dsimp only
    rw [hmine]
    rfl
  · rw [seen_lazy (by omega) hinvalid hlt]
    dsimp only
    rw [hmine, hzero]
    rfl

theorem Roomy.unseen (hno : ¬ Usable false x.kmem sz r v) : x.seen sz r v = none := by
  have henough := h.enough
  unfold Ram.seen
  by_cases hv : USERTOP <= v
  · rw [if_pos hv]
  rw [if_neg hv]
  by_cases hvalid : (leafAt x.kmem r v).v = true
  · rw [if_pos hvalid, if_neg]
    intro huser
    exact hno (.inl ⟨by omega, hvalid, huser, nofun⟩)
  · rw [if_neg hvalid, if_neg]
    intro hlt
    have hin : v ∈ x.unmapped sz r := by
      unfold Ram.unmapped
      rw [Finset.mem_filter, Finset.mem_range]
      exact ⟨(lt_pages_iff hsz).mp hlt, Bool.eq_false_iff.mpr hvalid⟩
    have hcard := Finset.card_pos.mpr ⟨v, hin⟩
    have hmissing := sv39.missing_le x.kmem.entry 2 r v
    exact hno (.inr ⟨hlt, Bool.eq_false_iff.mpr hvalid, by omega⟩)

theorem Roomy.touch (v : Nat) :
    exists y res, x.touch ⟨r, sz⟩ r (v * PGSIZE) = .ok (y, res) ∧
      y.seen sz r = x.seen sz r ∧
      match res with
      | none => x.seen sz r v = none
      | some pa => Roomy y trampoline trapframe sz r ∧ Page.Seen x y sz r v pa := by
  have hbound := h.space.bound
  have htop := USERTOP_le
  rcases touch_touched hsz h.space.inner h.good v with ⟨y, res, hrun, htouched⟩
  refine ⟨y, res, hrun, ?_⟩
  cases htouched with
  | mapped hv hvalid huser =>
    have hlt := h.space.user_lt (by omega) hvalid huser
    exact ⟨rfl, h, by omega, hvalid, huser, rfl, seen_mapped (by omega) hvalid huser⟩
  | fresh hlt hinvalid henough hmem hsuffix hplaced hleaf =>
    exact h.fresh hsz hlt hinvalid hmem hplaced hleaf (touch_length hrun)
  | refused hno hplaced hleaf hdata =>
    refine ⟨seen_congr (fun w hw => hleaf w (by omega)) ?_, h.unseen hsz hno⟩
    intro w hw hvalid
    exact hdata _ (leaf_not_free h.good hw hvalid)

end

/-!
## `copyin`
-/

structure Alike (x y : Ram) (trampoline trapframe : Page) (sz : Nat) (r : Page) : Prop where
  left : Roomy x trampoline trapframe sz r
  right : Roomy y trampoline trapframe sz r
  seen : x.seen sz r = y.seen sz r

theorem Alike.touch (hsz : sz <= TRAPFRAME) (h : Alike x y trampoline trapframe sz r) (v : Nat) :
    (exists x1 y1, x.touch ⟨r, sz⟩ r (v * PGSIZE) = .ok (x1, none) ∧
      y.touch ⟨r, sz⟩ r (v * PGSIZE) = .ok (y1, none) ∧
      x1.seen sz r = y1.seen sz r) ∨
    exists x1 pa y1 qa, x.touch ⟨r, sz⟩ r (v * PGSIZE) = .ok (x1, some pa) ∧
      y.touch ⟨r, sz⟩ r (v * PGSIZE) = .ok (y1, some qa) ∧
      Alike x1 y1 trampoline trapframe sz r ∧ Page.Seen x1 x1 sz r v pa ∧
      Page.Seen y1 y1 sz r v qa := by
  rcases h.left.touch hsz v with ⟨x1, res, hx, hseenx, hresx⟩
  rcases h.right.touch hsz v with ⟨y1, res', hy, hseeny, hresy⟩
  have hsame : x1.seen sz r = y1.seen sz r := by
    rw [hseenx, hseeny]
    exact h.seen
  cases res with
  | none =>
    cases res' with
    | none => exact .inl ⟨x1, y1, hx, hy, hsame⟩
    | some qa =>
      have hsome := hresy.2.seen
      rw [← h.seen, hresx] at hsome
      cases hsome
  | some pa =>
    cases res' with
    | none =>
      have hsome := hresx.2.seen
      rw [h.seen, hresy] at hsome
      cases hsome
    | some qa =>
      refine .inr ⟨x1, pa, y1, qa, hx, hy, ⟨hresx.1, hresy.1, hsame⟩, ?_, ?_⟩
      · refine { hresx.2 with seen := ?_ }
        rw [hseenx]
        exact hresx.2.seen
      · refine { hresy.2 with seen := ?_ }
        rw [hseeny]
        exact hresy.2.seen

theorem Alike.page (h : Alike x y trampoline trapframe sz r) {qa : Page}
    (hx : Page.Seen x x sz r v pa) (hy : Page.Seen y y sz r v qa) :
    (leafAt x.kmem r v).perm = (leafAt y.kmem r v).perm ∧ x.data pa = y.data qa := by
  have heq := hx.seen
  rw [h.seen, hy.seen] at heq
  have hpair := Option.some.inj heq
  exact ⟨(congrArg Prod.fst hpair).symm, (congrArg Prod.snd hpair).symm⟩

theorem copyinLoop_alike {turns : Nat} (hsz : sz <= TRAPFRAME)
    (h : Alike x y trampoline trapframe sz r) (a len : Nat) :
    exists x' y' done bytes,
      Ram.copyinLoop ⟨r, sz⟩ r turns x a len = .ok (x', done, bytes) ∧
      Ram.copyinLoop ⟨r, sz⟩ r turns y a len = .ok (y', done, bytes) ∧
      x'.seen sz r = y'.seen sz r := by
  induction turns generalizing x y a len with
  | zero => exact ⟨x, y, true, [], rfl, rfl, h.seen⟩
  | succ turns ih =>
    unfold Ram.copyinLoop
    by_cases hlen : len = 0
    · rw [if_pos hlen, if_pos hlen]
      exact ⟨x, y, true, [], rfl, rfl, h.seen⟩
    rw [if_neg hlen, if_neg hlen]
    have htouch := h.touch hsz (a / PGSIZE)
    rw [← (pgrounddown_eq a).1] at htouch
    rcases htouch with ⟨x1, y1, hx, hy, hseen⟩ | ⟨x1, pa, y1, qa, hx, hy, h1, hpx, hpy⟩
    · simp only [hx, hy, bind, Except.bind]
      exact ⟨x1, y1, false, [], rfl, rfl, hseen⟩
    · simp only [hx, hy, bind, Except.bind]
      rcases ih h1 ((pgrounddown a + PGSIZE) % 2 ^ 64)
        (len - min (PGSIZE - (a - pgrounddown a)) len) with ⟨x', y', done, bytes, hx', hy', hseen⟩
      rw [hx', hy', (h1.page hpx hpy).2]
      exact ⟨x', y', done, _, rfl, rfl, hseen⟩

/-!
## `copyout`
-/

def UserMemory.store (u : UserMemory) (v off n : Nat) (src : Nat -> UInt8) : UserMemory :=
  update u v ((u v).map fun page =>
    (page.1, fun j => if off <= j ∧ j < off + n then src (j - off) else page.2 j))

theorem store_seen (h : Roomy x trampoline trapframe sz r)
    (hp : Page.Seen x x sz r v pa) (off n : Nat) (src : Nat -> UInt8) :
    (x.store pa off n src).seen sz r = (x.seen sz r).store v off n src := by
  funext w
  unfold UserMemory.store
  rcases eq_or_ne w v with rfl | hne
  · have hstored : (x.store pa off n src).seen sz r w = _ :=
      seen_mapped (x := x.store pa off n src) hp.lt hp.valid hp.user
    rw [update_self, hp.seen, hstored]
    unfold Ram.store
    dsimp only
    rw [hp.ppn, update_self]
    rfl
  · rw [update_of_ne hne]
    unfold Ram.seen
    by_cases hw : USERTOP <= w
    · rw [if_pos hw, if_pos hw]
    rw [if_neg hw, if_neg hw]
    unfold Ram.store
    dsimp only
    by_cases hvalid : (leafAt x.kmem r w).v = true
    · have hppn : (leafAt x.kmem r w).ppn ≠ pa := by
        rw [← hp.ppn]
        intro heq
        exact hne (leaf_inj h.good (Nat.not_le.mp hw) hp.lt hvalid hp.valid heq)
      rw [update_of_ne hppn]
    · rw [if_neg hvalid, if_neg hvalid]

theorem Roomy.store (h : Roomy x trampoline trapframe sz r) (pa : Page) (off n : Nat)
    (src : Nat -> UInt8) : Roomy (x.store pa off n src) trampoline trapframe sz r :=
  ⟨h.space, h.good, h.enough⟩

theorem Alike.store (h : Alike x y trampoline trapframe sz r) {qa : Page}
    (hx : Page.Seen x x sz r v pa) (hy : Page.Seen y y sz r v qa) (off n : Nat)
    (src : Nat -> UInt8) :
    Alike (x.store pa off n src) (y.store qa off n src) trampoline trapframe sz r := by
  refine ⟨h.left.store pa off n src, h.right.store qa off n src, ?_⟩
  rw [store_seen h.left hx, store_seen h.right hy, h.seen]

theorem Page.Seen.walk (h : Page.Seen x x sz r v pa) (hva : va < MAXVA) (hv : va / PGSIZE = v) :
    exists q i, walk x.kmem r va false = .ok (x.kmem, some (q, i)) ∧
      x.kmem.entry q i = leafAt x.kmem r v := by
  rcases locate_of_valid h.valid with ⟨⟨q, i⟩, hloc⟩
  refine ⟨q, i, ?_, (leafAt_of_locate hloc).symm⟩
  rw [walk_false hva, hv, hloc]

theorem copyoutLoop_alike {turns : Nat} (hsz : sz <= TRAPFRAME)
    (h : Alike x y trampoline trapframe sz r) (src : Nat -> UInt8) (a len : Nat) :
    exists x' y' done,
      Ram.copyoutLoop ⟨r, sz⟩ r turns x src a len = .ok (x', done) ∧
      Ram.copyoutLoop ⟨r, sz⟩ r turns y src a len = .ok (y', done) ∧
      x'.seen sz r = y'.seen sz r := by
  induction turns generalizing x y src a len with
  | zero => exact ⟨x, y, true, rfl, rfl, h.seen⟩
  | succ turns ih =>
    unfold Ram.copyoutLoop
    by_cases hlen : len = 0
    · rw [if_pos hlen, if_pos hlen]
      exact ⟨x, y, true, rfl, rfl, h.seen⟩
    rw [if_neg hlen, if_neg hlen]
    by_cases hmax : pgrounddown a >= MAXVA
    · simp only [if_pos hmax]
      exact ⟨x, y, false, rfl, rfl, h.seen⟩
    simp only [if_neg hmax]
    have hva : pgrounddown a < MAXVA := Nat.not_le.mp hmax
    have htouch := h.touch hsz (a / PGSIZE)
    rw [← (pgrounddown_eq a).1] at htouch
    rcases htouch with ⟨x1, y1, hx, hy, hseen⟩ | ⟨x1, pa, y1, qa, hx, hy, h1, hpx, hpy⟩
    · simp only [hx, hy, bind, Except.bind]
      exact ⟨x1, y1, false, rfl, rfl, hseen⟩
    · rcases hpx.walk hva (pgrounddown_eq a).2 with ⟨q, i, hwalkx, hentryx⟩
      rcases hpy.walk hva (pgrounddown_eq a).2 with ⟨q', i', hwalky, hentryy⟩
      have hw : (leafAt x1.kmem r (a / PGSIZE)).w = (leafAt y1.kmem r (a / PGSIZE)).w :=
        congrArg Perm.w (h1.page hpx hpy).1
      simp only [hx, hy, hwalkx, hwalky, hentryx, hentryy, hw, bind, Except.bind]
      cases (leafAt y1.kmem r (a / PGSIZE)).w with
      | false => exact ⟨x1, y1, false, rfl, rfl, h1.seen⟩
      | true => exact ih (h1.store hpx hpy _ _ src) _ _ _

/-!
## Loads and stores of the user
-/

def Perm.allows (perm : Perm) (write : Bool) : Bool :=
  if write then perm.w else perm.r

theorem translate_some (h : x.translate r write va = some pa) :
    va < MAXVA ∧ (leafAt x.kmem r (va / PGSIZE)).v = true ∧
      (leafAt x.kmem r (va / PGSIZE)).u = true ∧ (leafAt x.kmem r (va / PGSIZE)).ppn = pa := by
  unfold Ram.translate at h
  dsimp only at h
  by_cases hcond : va < MAXVA ∧ (leafAt x.kmem r (va / PGSIZE)).v = true ∧
      (leafAt x.kmem r (va / PGSIZE)).u = true ∧
      (if write then (leafAt x.kmem r (va / PGSIZE)).w
        else (leafAt x.kmem r (va / PGSIZE)).r) = true
  · rw [if_pos hcond] at h
    exact ⟨hcond.1, hcond.2.1, hcond.2.2.1, Option.some.inj h⟩
  · rw [if_neg hcond] at h
    cases h

theorem Page.Seen.translate (h : Page.Seen x x sz r (va / PGSIZE) pa) : x.translate r write va =
      if (leafAt x.kmem r (va / PGSIZE)).perm.allows write = true then some pa else none := by
  have hva : va < MAXVA := by
    have hlt := h.lt
    rw [MAXVA_eq]
    unfold PGSIZE at hlt ⊢
    omega
  unfold Ram.translate Perm.allows
  dsimp only
  rw [← h.ppn]
  by_cases hok : (if write then (leafAt x.kmem r (va / PGSIZE)).w
      else (leafAt x.kmem r (va / PGSIZE)).r) = true
  · rw [if_pos ⟨hva, h.valid, h.user, hok⟩]
    exact (if_pos hok).symm
  · rw [if_neg fun hall => hok hall.2.2.2]
    exact (if_neg hok).symm

theorem Roomy.translated (h : Roomy x trampoline trapframe sz r)
    (hpa : x.translate r write va = some pa) :
    Page.Seen x x sz r (va / PGSIZE) pa := by
  have hbound := h.space.bound
  have htop := USERTOP_le
  unfold Ram.translate at hpa
  by_cases hok : va < MAXVA ∧ (leafAt x.kmem r (va / PGSIZE)).v = true ∧
      (leafAt x.kmem r (va / PGSIZE)).u = true ∧ (if write then (leafAt x.kmem r (va / PGSIZE)).w
        else (leafAt x.kmem r (va / PGSIZE)).r) = true
  · rcases hok with ⟨hva, hvalid, huser, hperm⟩
    have hppn : (leafAt x.kmem r (va / PGSIZE)).ppn = pa := by
      rw [if_pos ⟨hva, hvalid, huser, hperm⟩] at hpa
      exact Option.some.inj hpa
    have hv : va / PGSIZE < VPNS := by
      rw [MAXVA_eq] at hva
      unfold PGSIZE at hva ⊢
      omega
    have hlt := h.space.user_lt hv hvalid huser
    refine ⟨by omega, hvalid, huser, hppn, ?_⟩
    rw [← hppn]
    exact seen_mapped (by omega) hvalid huser
  · rw [if_neg hok] at hpa
    cases hpa

/-- Whether a fault can serve an address is decided by the page it is in. -/
def Faultable (x : Ram) (sz : Nat) (r : Page) (va : Nat) : Prop :=
  va < sz ∨ sz <= va / PGSIZE * PGSIZE ∨ (leafAt x.kmem r (va / PGSIZE)).v = true

theorem vmfault_down (hva : va < p.sz) :
    x.vmfault p r va = x.vmfault p r (va / PGSIZE * PGSIZE) := by
  have hle := Nat.div_mul_le_self va PGSIZE
  unfold Ram.vmfault
  rw [if_neg (Nat.not_le.mpr hva), if_neg (by omega), (pgrounddown_eq va).1,
    (pgrounddown_eq (va / PGSIZE * PGSIZE)).1, (page_addr _).2]

theorem vmfault_mapped (hsz : sz <= TRAPFRAME) (hvalid : (leafAt x.kmem r (va / PGSIZE)).v = true) :
    x.vmfault ⟨r, sz⟩ r va = .ok (x, none) := by
  unfold Ram.vmfault
  by_cases hge : va >= sz
  · rw [if_pos hge]
    rfl
  have hmax : pgrounddown va < MAXVA := by
    have hle := Nat.div_mul_le_self va PGSIZE
    have htop : TRAPFRAME < MAXVA := by
      decide
    rw [(pgrounddown_eq va).1]
    omega
  rw [if_neg hge]
  simp only [ismapped_eq hmax, (pgrounddown_eq va).2, hvalid, bind, Except.bind]
  rfl

theorem Roomy.userAccess (hsz : sz <= TRAPFRAME) (h : Roomy x trampoline trapframe sz r)
    (hok : Faultable x sz r va) (write : Bool) :
    exists y res, Ram.userAccess ⟨r, sz⟩ write va 2 x = .ok (y, res) ∧
      y.seen sz r = x.seen sz r ∧
      match res with
      | none => forall page, x.seen sz r (va / PGSIZE) = some page -> page.1.allows write = false
      | some pa => Roomy y trampoline trapframe sz r ∧ Page.Seen y y sz r (va / PGSIZE) pa ∧
          (leafAt y.kmem r (va / PGSIZE)).perm.allows write = true := by
  unfold Ram.userAccess
  cases htrans : x.translate r write va with
  | some pa =>
    have hp := h.translated htrans
    refine ⟨x, some pa, rfl, rfl, h, hp, ?_⟩
    by_contra hno
    rw [hp.translate, if_neg hno] at htrans
    cases htrans
  | none =>
    by_cases hvalid : (leafAt x.kmem r (va / PGSIZE)).v = true
    · simp only [vmfault_mapped hsz hvalid, bind, Except.bind]
      refine ⟨x, none, rfl, rfl, ?_⟩
      intro page hpage
      unfold Ram.seen at hpage
      rw [if_pos hvalid] at hpage
      split at hpage
      · cases hpage
      split at hpage
      · next hv huser =>
          have hp : Page.Seen x x sz r (va / PGSIZE) (leafAt x.kmem r (va / PGSIZE)).ppn :=
            ⟨Nat.not_le.mp hv, hvalid, huser, rfl, seen_mapped (Nat.not_le.mp hv) hvalid huser⟩
          rw [← Option.some.inj hpage]
          by_contra hyes
          rw [hp.translate, if_pos (Bool.eq_true_of_not_eq_false hyes)] at htrans
          cases htrans
      · cases hpage
    have hinvalid := Bool.eq_false_iff.mpr hvalid
    by_cases hlt : va < sz
    · have hmiss : ¬ (va / PGSIZE < USERTOP + 2 ∧ (leafAt x.kmem r (va / PGSIZE)).v = true ∧
          (leafAt x.kmem r (va / PGSIZE)).u = true) := fun hall => hvalid hall.2.1
      rcases vmfault_touched hsz h.space.inner h.good hmiss with ⟨y, res, hrun, htouched⟩
      rw [← vmfault_down hlt] at hrun
      simp only [hrun, bind, Except.bind]
      cases htouched with
      | mapped hv hvalid' => exact absurd hvalid' hvalid
      | refused hno hplaced hleaf hdata =>
        have htop := USERTOP_le
        refine ⟨y, none, rfl, seen_congr (fun w hw => hleaf w (by omega)) ?_, ?_⟩
        · intro w hw hvalid
          exact hdata _ (leaf_not_free h.good hw hvalid)
        · intro page hpage
          rw [h.unseen hsz hno] at hpage
          cases hpage
      | @fresh m pa hpage _ _ hmem _ hplaced hleaf =>
        rcases h.fresh hsz hpage hinvalid hmem hplaced hleaf (vmfault_length hrun) with
          ⟨hseen, hroomy, hp⟩
        have hself := { hp with seen := hseen ▸ hp.seen }
        have hbound := h.space.bound
        have htop := USERTOP_le
        have hallows : (leafAt m r (va / PGSIZE)).perm.allows write = true := by
          rw [hleaf _ (Nat.lt_of_lt_of_le hp.lt (by omega)), if_pos rfl]
          cases write <;> rfl
        refine ⟨_, some pa, ?_, hseen, hroomy, hself, hallows⟩
        unfold Ram.userAccess
        rw [hself.translate, if_pos hallows]
        rfl
    · have hbehind : sz <= va / PGSIZE * PGSIZE := by
        rcases hok with hok | hok | hok
        · exact absurd hok hlt
        · exact hok
        · exact absurd hok hvalid
      have hfault : x.vmfault ⟨r, sz⟩ r va = .ok (x, none) := by
        unfold Ram.vmfault
        rw [if_pos (Nat.not_lt.mp hlt)]
        rfl
      simp only [hfault, bind, Except.bind]
      refine ⟨x, none, rfl, rfl, ?_⟩
      intro page hpage
      unfold Ram.seen at hpage
      rw [if_neg hvalid, if_neg (Nat.not_lt.mpr hbehind), ite_self] at hpage
      cases hpage

theorem Alike.userAccess (hsz : sz <= TRAPFRAME) (h : Alike x y trampoline trapframe sz r)
    (hx : Faultable x sz r va) (hy : Faultable y sz r va) (write : Bool) :
    (exists x1 y1, Ram.userAccess ⟨r, sz⟩ write va 2 x = .ok (x1, none) ∧
      Ram.userAccess ⟨r, sz⟩ write va 2 y = .ok (y1, none) ∧
      x1.seen sz r = y1.seen sz r) ∨
    exists x1 pa y1 qa,
      Ram.userAccess ⟨r, sz⟩ write va 2 x = .ok (x1, some pa) ∧
      Ram.userAccess ⟨r, sz⟩ write va 2 y = .ok (y1, some qa) ∧
      Alike x1 y1 trampoline trapframe sz r ∧ Page.Seen x1 x1 sz r (va / PGSIZE) pa ∧
      Page.Seen y1 y1 sz r (va / PGSIZE) qa := by
  rcases h.left.userAccess hsz hx write with ⟨x1, res, hrunx, hseenx, hresx⟩
  rcases h.right.userAccess hsz hy write with ⟨y1, res', hruny, hseeny, hresy⟩
  have hsame : x1.seen sz r = y1.seen sz r := by
    rw [hseenx, hseeny]
    exact h.seen
  cases res with
  | none =>
    cases res' with
    | none => exact .inl ⟨x1, y1, hrunx, hruny, hsame⟩
    | some qa =>
      have hsome := hresy.2.1.seen
      rw [hseeny, ← h.seen] at hsome
      have hallows := hresy.2.2
      rw [hresx _ hsome] at hallows
      cases hallows
  | some pa =>
    cases res' with
    | none =>
      have hsome := hresx.2.1.seen
      rw [hseenx, h.seen] at hsome
      have hallows := hresx.2.2
      rw [hresy _ hsome] at hallows
      cases hallows
    | some qa =>
      exact .inr ⟨x1, pa, y1, qa, hrunx, hruny, ⟨hresx.1, hresy.1, hsame⟩, hresx.2.1, hresy.2.1⟩

/-!
## The eager twin
-/

/-- `y` is `x` with the missing pages filled in. -/
structure Twin (x y : Ram) (sz : Nat) (r : Page) : Prop where
  mapped : forall v, v < VPNS -> (leafAt x.kmem r v).v = true ->
    leafAt y.kmem r v = leafAt x.kmem r v
  data : forall v, v < USERTOP -> (leafAt x.kmem r v).v = true ->
    y.data (leafAt x.kmem r v).ppn = x.data (leafAt x.kmem r v).ppn
  filled : forall v, v * PGSIZE < sz -> (leafAt x.kmem r v).v = false ->
    exists pa, leafAt y.kmem r v = lazyPerm.pte pa ∧ y.data pa = fun _ => 0
  behind : forall v, v < VPNS -> sz <= v * PGSIZE -> (leafAt x.kmem r v).v = false ->
    (leafAt y.kmem r v).v = false

theorem Twin.valid (h : Twin x y sz r) (hv : v < VPNS) (hlt : v * PGSIZE < sz) :
    (leafAt y.kmem r v).v = true := by
  cases hvalid : (leafAt x.kmem r v).v with
  | true =>
    rw [h.mapped v hv hvalid]
    exact hvalid
  | false =>
    rcases h.filled v hlt hvalid with ⟨pa, hleaf, _⟩
    rw [hleaf]
    rfl

theorem Twin.seen (h : Twin x y sz r) : x.seen sz r = y.seen sz r := by
  have htop := USERTOP_le
  funext v
  by_cases hv : USERTOP <= v
  · unfold Ram.seen
    rw [if_pos hv, if_pos hv]
  have hlt : v < USERTOP := Nat.not_le.mp hv
  cases hvalid : (leafAt x.kmem r v).v with
  | true =>
    unfold Ram.seen
    rw [h.mapped v (by omega) hvalid, h.data v hlt hvalid, hvalid]
  | false =>
    by_cases hbelow : v * PGSIZE < sz
    · rcases h.filled v hbelow hvalid with ⟨pa, hleaf, hzero⟩
      have hy : y.seen sz r v = _ := seen_mapped hlt (h.valid (by omega) hbelow)
        (by rw [hleaf]; rfl)
      rw [seen_lazy hlt hvalid hbelow, hy, hleaf]
      exact congrArg some (Prod.ext rfl hzero.symm)
    · have hno := h.behind v (by omega) (Nat.not_lt.mp hbelow) hvalid
      unfold Ram.seen
      rw [hvalid, hno, if_neg hv, if_neg hv]
      rfl

theorem Twin.alike (h : Twin x y sz r) (hsz : sz <= TRAPFRAME)
    (hx : Roomy x trampoline trapframe sz r)
    (hspace : Space y.kmem trampoline trapframe r (pages sz))
    (hgood : Good y.kmem (use y.kmem r)) : Alike x y trampoline trapframe sz r := by
  have hnone : y.unmapped sz r = ∅ := by
    have htop := USERTOP_le
    have hbound := hspace.bound
    unfold Ram.unmapped
    rw [Finset.filter_eq_empty_iff]
    intro v hv
    rw [Finset.mem_range] at hv
    rw [h.valid (by omega) ((lt_pages_iff hsz).mpr hv)]
    decide
  refine ⟨hx, ⟨hspace, hgood, ?_⟩, h.seen⟩
  rw [hnone, Finset.card_empty]
  exact Nat.zero_le _

theorem Twin.faultable (h : Twin x y sz r) (hsz : sz <= TRAPFRAME)
    (hok : Faultable x sz r va) : Faultable y sz r va := by
  by_cases hva : va < MAXVA
  case neg =>
    have hmax : TRAPFRAME <= MAXVA := by
      decide
    rw [lt_MAXVA_iff] at hva
    exact .inr (.inl (by omega))
  have hv : va / PGSIZE < VPNS := by
    have htop := USERTOP_le
    rw [MAXVA_eq] at hva
    unfold PGSIZE at hva ⊢
    omega
  rcases hok with hok | hok | hok
  · exact .inl hok
  · exact .inr (.inl hok)
  · rw [← h.mapped _ hv hok] at hok
    exact .inr (.inr hok)

/-- No page that a string reaches is missing. -/
def Present (x : Ram) (sz : Nat) (r : Page) (a len : Nat) : Prop :=
  forall k, k < len -> (forall i, i < k -> exists c, x.userByte r (a + i) = some c ∧ c ≠ 0) ->
    sz <= (a + k) / PGSIZE * PGSIZE ∨ (leafAt x.kmem r ((a + k) / PGSIZE)).v = true

section

variable (h : Twin x y sz r)
include h

theorem Twin.copyinstr (hspace : Space x.kmem trampoline trapframe r (pages sz))
    {a len : Nat} (hpresent : Present x sz r a len) :
    x.copyinstr r a len = y.copyinstr r a len := by
  have htop := USERTOP_le
  have hbound := hspace.bound
  rw [copyinstr_scan, copyinstr_scan]
  refine congrArg _ (scan_congr ?_)
  intro k hk hbefore
  unfold Ram.userByte
  dsimp only
  by_cases hva : a + k < MAXVA
  · have hv : (a + k) / PGSIZE < VPNS := by
      rw [MAXVA_eq] at hva
      unfold PGSIZE at hva ⊢
      omega
    cases hvalid : (leafAt x.kmem r ((a + k) / PGSIZE)).v with
    | false =>
      rcases hpresent k hk hbefore with hbehind | hvalid'
      · rw [h.behind _ hv hbehind hvalid, if_neg (by simp), if_neg (by simp)]
      · rw [hvalid] at hvalid'
        cases hvalid'
    | true =>
      rw [h.mapped _ hv hvalid, hvalid]
      by_cases huser : (leafAt x.kmem r ((a + k) / PGSIZE)).u = true
      · have hlt := hspace.user_lt hv hvalid huser
        rw [h.data _ (by omega) hvalid]
      · rw [if_neg fun hall => huser hall.2.2, if_neg fun hall => huser hall.2.2]
  · rw [if_neg fun hall => hva hall.1, if_neg fun hall => hva hall.1]

/-!
## What is visible
-/

theorem Twin.filledByte (hsz : sz <= TRAPFRAME)
    (hlt : va / PGSIZE * PGSIZE < sz) (hinvalid : (leafAt x.kmem r (va / PGSIZE)).v = false) :
    exists pa, leafAt y.kmem r (va / PGSIZE) = lazyPerm.pte pa ∧ va < MAXVA ∧
      y.userByte r va = some 0 := by
  rcases h.filled _ hlt hinvalid with ⟨pa, hleaf, hzero⟩
  have htop : TRAPFRAME < MAXVA := by
    decide
  have hva : va < MAXVA := lt_MAXVA_iff.mpr (by omega)
  refine ⟨pa, hleaf, hva, ?_⟩
  unfold Ram.userByte
  dsimp only
  rw [hleaf, if_pos ⟨hva, rfl, rfl⟩]
  exact congrArg some (congrFun hzero _)

theorem Twin.userByte (hspace : Space x.kmem trampoline trapframe r (pages sz))
    {c : UInt8} (hc : x.userByte r va = some c) : y.userByte r va = some c := by
  have htop := USERTOP_le
  have hbound := hspace.bound
  unfold Ram.userByte at hc ⊢
  dsimp only at hc ⊢
  split at hc
  · next hok =>
      rcases hok with ⟨hva, hvalid, huser⟩
      have hv : va / PGSIZE < VPNS := by
        rw [MAXVA_eq] at hva
        unfold PGSIZE at hva ⊢
        omega
      have hlt := hspace.user_lt hv hvalid huser
      rw [h.mapped _ hv hvalid, if_pos ⟨hva, hvalid, huser⟩, h.data _ (by omega) hvalid]
      exact hc
  · cases hc

theorem Twin.copyinstr_missing (hsz : sz <= TRAPFRAME)
    (hspace : Space x.kmem trampoline trapframe r (pages sz)) {a len : Nat}
    (hno : ¬ Present x sz r a len) :
    exists k, k < len ∧ (scan (x.userByte r) 0 a len).1 = false ∧
      Terminated (y.userByte r) 0 a k := by
  unfold Present at hno
  push Not at hno
  rcases hno with ⟨k, hk, hbefore, hlt, hvalid⟩
  have hinvalid : (leafAt x.kmem r ((a + k) / PGSIZE)).v = false := Bool.eq_false_iff.mpr hvalid
  have hnone : x.userByte r (a + k) = none := by
    unfold Ram.userByte
    dsimp only
    rw [hinvalid, if_neg fun hall => Bool.false_ne_true hall.2.1]
  refine ⟨k, hk, scan_missing ?_ hnone, ?_, ?_⟩
  · intro i hi hzero
    rcases hbefore i hi with ⟨c, hc, hne⟩
    rw [hzero] at hc
    exact hne (Option.some.inj hc).symm
  · intro i hi
    rcases hbefore i hi with ⟨c, hc, hne⟩
    exact ⟨c, h.userByte hspace hc, hne⟩
  · rcases h.filledByte hsz hlt hinvalid with ⟨_, _, _, hzero⟩
    exact hzero

theorem Twin.copyinstr_iff (hsz : sz <= TRAPFRAME)
    (hspace : Space x.kmem trampoline trapframe r (pages sz)) (a len : Nat) :
    x.copyinstr r a len = y.copyinstr r a len <-> Present x sz r a len := by
  refine ⟨?_, h.copyinstr hspace⟩
  intro heq
  by_contra hno
  rcases h.copyinstr_missing hsz hspace hno with ⟨k, hk, hfalse, hterm⟩
  rw [copyinstr_scan, copyinstr_scan] at heq
  rw [Except.ok.inj heq, (hterm.scan hk).1] at hfalse
  cases hfalse

theorem Twin.fetchstr_iff (hsz : sz <= TRAPFRAME)
    (hspace : Space x.kmem trampoline trapframe r (pages sz)) (a len : Nat) :
    x.fetchstr ⟨r, sz⟩ a len = y.fetchstr ⟨r, sz⟩ a len <->
      Present x sz r a len := by
  constructor
  · intro heq
    by_contra hno
    rcases h.copyinstr_missing hsz hspace hno with ⟨k, hk, hfalse, hterm⟩
    rw [fetchstr_scan, fetchstr_scan, hfalse, (hterm.scan hk).1] at heq
    have hret := congrArg Prod.fst (Except.ok.inj heq)
    dsimp only at hret
    rw [if_neg Bool.false_ne_true, if_pos rfl] at hret
    omega
  · intro hpresent
    unfold Ram.fetchstr
    dsimp only
    rw [h.copyinstr hspace hpresent]

theorem Twin.userAccess_missing (hsz : sz <= TRAPFRAME)
    (hno : ¬ Faultable x sz r va) (write : Bool) :
    Ram.userAccess ⟨r, sz⟩ write va 2 x = .ok (x, none) ∧
      exists pa, Ram.userAccess ⟨r, sz⟩ write va 2 y = .ok (y, some pa) := by
  unfold Faultable at hno
  push Not at hno
  rcases hno with ⟨hge, hlt, hvalid⟩
  have hinvalid : (leafAt x.kmem r (va / PGSIZE)).v = false := Bool.eq_false_iff.mpr hvalid
  constructor
  · have htrans : x.translate r write va = none := by
      unfold Ram.translate
      dsimp only
      rw [hinvalid, if_neg fun hall => Bool.false_ne_true hall.2.1]
    have hfault : x.vmfault ⟨r, sz⟩ r va = .ok (x, none) := by
      unfold Ram.vmfault
      rw [if_pos hge]
      rfl
    unfold Ram.userAccess
    simp only [htrans, hfault, bind, Except.bind]
    rfl
  · rcases h.filledByte hsz hlt hinvalid with ⟨pa, hleaf, hva, _⟩
    have htrans : y.translate r write va = some pa := by
      unfold Ram.translate
      dsimp only
      rw [hleaf, if_pos]
      · rfl
      · refine ⟨hva, rfl, rfl, ?_⟩
        cases write <;> rfl
    refine ⟨pa, ?_⟩
    unfold Ram.userAccess
    simp only [htrans]
    rfl

end

/-!
## Lazy allocation is invisible
-/

theorem lazy_invisible (hsz : sz <= TRAPFRAME) (hx : Roomy x trampoline trapframe sz r)
    (hspace : Space y.kmem trampoline trapframe r (pages sz)) (hgood : Good y.kmem (use y.kmem r))
    (htwin : Twin x y sz r) :
    (forall srcva len, exists x' y' done bytes,
      x.copyin ⟨r, sz⟩ r srcva len = .ok (x', done, bytes) ∧
      y.copyin ⟨r, sz⟩ r srcva len = .ok (y', done, bytes) ∧
      x'.seen sz r = y'.seen sz r) ∧
    (forall dstva src len, exists x' y' done,
      x.copyout ⟨r, sz⟩ r dstva src len = .ok (x', done) ∧
      y.copyout ⟨r, sz⟩ r dstva src len = .ok (y', done) ∧
      x'.seen sz r = y'.seen sz r) ∧
    (forall addr, exists x' y' done bytes,
      x.fetchaddr ⟨r, sz⟩ addr = .ok (x', done, bytes) ∧
      y.fetchaddr ⟨r, sz⟩ addr = .ok (y', done, bytes) ∧
      x'.seen sz r = y'.seen sz r) ∧
    (forall addr len,
      (x.copyinstr r addr len = y.copyinstr r addr len <-> Present x sz r addr len) ∧
      (x.fetchstr ⟨r, sz⟩ addr len =
        y.fetchstr ⟨r, sz⟩ addr len <-> Present x sz r addr len)) ∧
    (forall va n, (exists x' y' res,
      x.userLoad ⟨r, sz⟩ va n = .ok (x', res) ∧
      y.userLoad ⟨r, sz⟩ va n = .ok (y', res) ∧
      x'.seen sz r = y'.seen sz r) <-> Faultable x sz r va) ∧
    forall va n src, (exists x' y' res,
      x.userStore ⟨r, sz⟩ va n src = .ok (x', res) ∧
      y.userStore ⟨r, sz⟩ va n src = .ok (y', res) ∧
      x'.seen sz r = y'.seen sz r) <-> Faultable x sz r va := by
  have halike := htwin.alike hsz hx hspace hgood
  refine ⟨?_, ?_, ?_, ?_, ?_, ?_⟩
  · intro srcva len
    exact copyinLoop_alike hsz halike srcva len
  · intro dstva src len
    exact copyoutLoop_alike hsz halike src dstva len
  · intro addr
    unfold Ram.fetchaddr
    split
    · exact ⟨x, y, false, [], rfl, rfl, halike.seen⟩
    · exact copyinLoop_alike hsz halike addr 8
  · intro addr len
    exact ⟨htwin.copyinstr_iff hsz hx.space addr len, htwin.fetchstr_iff hsz hx.space addr len⟩
  · intro va n
    unfold Ram.userLoad
    constructor
    · rintro ⟨x', y', res, hloadx, hloady, _⟩
      by_contra hno
      rcases htwin.userAccess_missing hsz hno false with ⟨hrunx, pa, hruny⟩
      simp only [hrunx, bind, Except.bind] at hloadx
      simp only [hruny, bind, Except.bind] at hloady
      cases hloadx
      cases hloady
    intro hok
    rcases halike.userAccess hsz hok (htwin.faultable hsz hok) false with
      ⟨x1, y1, hrunx, hruny, hseen⟩ | ⟨x1, pa, y1, qa, hrunx, hruny, h1, hpx, hpy⟩
    · simp only [hrunx, hruny, bind, Except.bind]
      exact ⟨x1, y1, none, rfl, rfl, hseen⟩
    · simp only [hrunx, hruny, bind, Except.bind]
      refine ⟨x1, y1, some (x1.bytes pa (va % PGSIZE) n), rfl, ?_, h1.seen⟩
      unfold Ram.bytes
      rw [(h1.page hpx hpy).2]
      rfl
  · intro va n src
    unfold Ram.userStore
    constructor
    · rintro ⟨x', y', res, hstorex, hstorey, _⟩
      by_contra hno
      rcases htwin.userAccess_missing hsz hno true with ⟨hrunx, pa, hruny⟩
      simp only [hrunx, bind, Except.bind] at hstorex
      simp only [hruny, bind, Except.bind] at hstorey
      cases hstorex
      cases hstorey
    intro hok
    rcases halike.userAccess hsz hok (htwin.faultable hsz hok) true with
      ⟨x1, y1, hrunx, hruny, hseen⟩ | ⟨x1, pa, y1, qa, hrunx, hruny, h1, hpx, hpy⟩
    · simp only [hrunx, hruny, bind, Except.bind]
      exact ⟨x1, y1, false, rfl, rfl, hseen⟩
    · simp only [hrunx, hruny, bind, Except.bind]
      exact ⟨_, _, true, rfl, rfl, (h1.store hpx hpy _ n src).seen⟩

end

theorem lazyRam_roomy : Roomy lazyRam 0x80005 0x87000 1 lazyProc.2 := by
  refine ⟨lazyRam_space.1, lazyRam_space.2, ?_⟩
  have hcard : (lazyRam.unmapped 1 lazyProc.2).card <= 1 :=
    Finset.card_filter_le _ _
  have hfree : 3 <= lazyRam.kmem.free.length := by
    decide +kernel
  omega

theorem lazyRam_twin : exists y pa,
    lazyRam.vmfault { pagetable := lazyProc.2, sz := 1 } lazyProc.2 0 = .ok (y, some pa) ∧
    Space y.kmem 0x80005 0x87000 lazyProc.2 (pages 1) ∧ Good y.kmem (use y.kmem lazyProc.2) ∧
    Twin lazyRam y 1 lazyProc.2 := by
  have hsome : passes (lazyRam.vmfault { pagetable := lazyProc.2, sz := 1 } lazyProc.2 0)
      (fun r => r.2.isSome) = true := by
    decide +kernel
  have hno : (leafAt lazyRam.kmem lazyProc.2 0).v = false := by
    decide +kernel
  have hmiss : ¬ (0 < USERTOP + 2 ∧ (leafAt lazyRam.kmem lazyProc.2 0).v = true ∧
      (leafAt lazyRam.kmem lazyProc.2 0).u = true) := by
    rw [hno]
    exact fun hall => absurd hall.2.1 (by decide)
  have hroomy := lazyRam_roomy
  have htop := USERTOP_le
  rcases vmfault_touched (show 1 <= TRAPFRAME by decide) hroomy.space.inner hroomy.good hmiss with
    ⟨y, res, hrun, htouched⟩
  rw [Nat.zero_mul] at hrun
  rw [hrun] at hsome
  cases htouched with
  | mapped _ hvalid => exact absurd (hno.symm.trans hvalid) (by decide)
  | refused => cases hsome
  | @fresh m pa hlt _ _ hmem _ hplaced hleaf =>
    rcases hroomy.fresh (by decide) hlt hno hmem hplaced hleaf (vmfault_length hrun) with
      ⟨_, hafter, _⟩
    have hother : forall v, v < VPNS -> (leafAt lazyRam.kmem lazyProc.2 v).v = true ->
        leafAt m lazyProc.2 v = leafAt lazyRam.kmem lazyProc.2 v := by
      intro v hv hvalid
      rw [hleaf v hv, if_neg]
      rintro rfl
      rw [hno] at hvalid
      cases hvalid
    refine ⟨_, pa, hrun, hafter.space, hafter.good, hother, ?_, ?_, ?_⟩
    · intro v hv hvalid
      refine update_of_ne ?_ _ _
      rintro rfl
      exact leaf_not_free hroomy.good hv hvalid hmem
    · intro v hv _
      have hzero : v = 0 := by
        unfold PGSIZE at hv
        omega
      refine ⟨pa, ?_, update_self _ _ _⟩
      rw [hzero]
      exact (hleaf 0 (by omega)).trans (if_pos rfl)
    · intro v hv hbehind hinvalid
      dsimp only
      rw [hleaf v hv, if_neg]
      · exact hinvalid
      · rintro rfl
        exact absurd hbehind (by decide)

theorem lazy_invisible_byte : exists x y : Ram, exists r : Page,
    Roomy x 0x80005 0x87000 1 r ∧ Twin x y 1 r ∧
    (exists x' y' done bytes, x.copyin { pagetable := r, sz := 1 } r 0 1 = .ok (x', done, bytes) ∧
      y.copyin { pagetable := r, sz := 1 } r 0 1 = .ok (y', done, bytes) ∧
      x'.seen 1 r = y'.seen 1 r) ∧
    exists x' y' res, x.userLoad { pagetable := r, sz := 1 } 0 1 = .ok (x', res) ∧
      y.userLoad { pagetable := r, sz := 1 } 0 1 = .ok (y', res) ∧
      x'.seen 1 r = y'.seen 1 r := by
  rcases lazyRam_twin with ⟨y, _, _, hspace, hgood, htwin⟩
  rcases lazy_invisible (by decide) lazyRam_roomy hspace hgood htwin with ⟨hin, _, _, _, hload, _⟩
  exact ⟨lazyRam, y, lazyProc.2, lazyRam_roomy, htwin, hin 0 1,
    (hload 0 1).mpr (.inl (by decide))⟩

/-- A string in a page that is not there yet, and a load behind `p->sz` in such a page. -/
theorem lazy_page_visible : exists x y : Ram, exists r : Page,
    Roomy x 0x80005 0x87000 1 r ∧ Space y.kmem 0x80005 0x87000 r (pages 1) ∧
    Good y.kmem (use y.kmem r) ∧ Twin x y 1 r ∧
    x.fetchstr { pagetable := r, sz := 1 } 0 128 = .ok (-1, []) ∧
    y.fetchstr { pagetable := r, sz := 1 } 0 128 = .ok (0, [0]) ∧
    (exists x', x.userLoad { pagetable := r, sz := 1 } 1 1 = .ok (x', none)) ∧
    exists y', y.userLoad { pagetable := r, sz := 1 } 1 1 = .ok (y', some [0]) := by
  rcases lazyRam_twin with ⟨y, pa, hrun, hspace, hgood, htwin⟩
  have hlazy : passes (lazyRam.fetchstr { pagetable := lazyProc.2, sz := 1 } 0 128)
      (fun res => passes (lazyRam.userLoad { pagetable := lazyProc.2, sz := 1 } 1 1) fun r =>
        decide (res = (-1, []) ∧ r.2 = none)) = true := by
    decide +kernel
  have heager : passes (lazyRam.vmfault { pagetable := lazyProc.2, sz := 1 } lazyProc.2 0)
      (fun a => passes (a.1.fetchstr { pagetable := lazyProc.2, sz := 1 } 0 128) fun res =>
        passes (a.1.userLoad { pagetable := lazyProc.2, sz := 1 } 1 1) fun r =>
          decide (res = (0, [0]) ∧ r.2 = some [0])) = true := by
    decide +kernel
  obtain ⟨_, hrun', heager⟩ := passes_eq_true.mp heager
  rw [hrun] at hrun'
  cases hrun'
  obtain ⟨_, hfetch, hlazy⟩ := passes_eq_true.mp hlazy
  obtain ⟨⟨x', _⟩, hload, hlazy⟩ := passes_eq_true.mp hlazy
  obtain ⟨rfl, rfl⟩ := of_decide_eq_true hlazy
  obtain ⟨_, hfetch', heager⟩ := passes_eq_true.mp heager
  obtain ⟨⟨y', _⟩, hload', heager⟩ := passes_eq_true.mp heager
  obtain ⟨rfl, rfl⟩ := of_decide_eq_true heager
  exact ⟨lazyRam, y, lazyProc.2, lazyRam_roomy, hspace, hgood, htwin, hfetch, hfetch',
    ⟨x', hload⟩, y', hload'⟩

end Vm
end Xv6
