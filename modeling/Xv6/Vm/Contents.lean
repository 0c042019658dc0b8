import Xv6.Vm.Strings

/-!
# Address spaces with their bytes

The functions of `vm.c` and `proc.c` that build, copy and free an address space, on
memory with bytes.  What they do to the page tables and to the free list is what the
functions on `Kmem` do; the bytes of a page change only when it is taken from the free
list, given back to it, or written.
-/

namespace Xv6
namespace Vm

open Lib Function

/-!
## The code
-/

namespace Ram

variable {r pg : Page} {sz va : Nat}

def setPte (x : Ram) (pg : Page) (i : Nat) (e : Pte) : Ram :=
  { x with kmem := x.kmem.set pg i e }

def copyPage (x : Ram) (dst src : Page) : Ram :=
  { x with data := update x.data dst (x.data src) }

def uvmcreate (x : Ram) : Option (Page × Ram) :=
  match x.kalloc with
  | none => none
  | some (pagetable, x) => some (pagetable, x.memset pagetable 0)

def uvmunmapLoop (doFree : Bool) : Nat -> Ram -> Page -> Nat -> Except Panic Ram
  | 0, x, _, _ => return x
  | n + 1, x, pagetable, a => do
      let (_, loc) ← walk x.kmem pagetable a false
      match loc with
      | none => uvmunmapLoop doFree n x pagetable (a + PGSIZE)
      | some (p, i) =>
        let pte := x.kmem.entry p i
        if !pte.v then
          uvmunmapLoop doFree n x pagetable (a + PGSIZE)
        else
          let x ← if doFree then x.kfree pte.ppn else pure x
          uvmunmapLoop doFree n (x.setPte p i Pte.zero) pagetable (a + PGSIZE)

def uvmunmap (x : Ram) (pagetable : Page) (va npages : Nat) (doFree : Bool) :
    Except Panic Ram :=
  if va % PGSIZE ≠ 0 then
    .error .uvmunmapNotAligned
  else
    uvmunmapLoop doFree npages x pagetable va

def uvmdealloc (x : Ram) (pagetable : Page) (oldsz newsz : Nat) : Except Panic (Ram × Nat) :=
  if newsz >= oldsz then
    return (x, oldsz)
  else if pgroundup newsz < pgroundup oldsz then do
    let npages := viaInt ((pgroundup oldsz - pgroundup newsz) / PGSIZE)
    let x ← x.uvmunmap pagetable (pgroundup newsz) npages true
    return (x, newsz)
  else
    return (x, newsz)

def uvmallocLoop (oldsz : Nat) (xperm : Perm) : Nat -> Ram -> Page -> Nat ->
    Except Panic (Ram × Bool)
  | 0, x, _, _ => return (x, true)
  | n + 1, x, pagetable, a =>
    match x.kalloc with
    | none => do
        let (x, _) ← x.uvmdealloc pagetable a oldsz
        return (x, false)
    | some (mem, x) => do
        let (x, mapped) ← (x.memset mem 0).mappages pagetable a PGSIZE mem
          { xperm with r := true, u := true }
        if mapped then
          uvmallocLoop oldsz xperm n x pagetable (a + PGSIZE)
        else
          let x ← x.kfree mem
          let (x, _) ← x.uvmdealloc pagetable a oldsz
          return (x, false)

def uvmalloc (x : Ram) (pagetable : Page) (oldsz newsz : Nat) (xperm : Perm) :
    Except Panic (Ram × Nat) :=
  if newsz < oldsz then
    return (x, oldsz)
  else do
    let a := pgroundup oldsz
    let (x, done) ← uvmallocLoop a xperm (pagesBetween a newsz) x pagetable a
    return (x, if done then newsz else 0)

/-- One turn of the loop of `freewalk`; `rest` frees the table of the next level. -/
def freewalkEntry (rest : Ram -> Page -> Except Panic Ram) (pagetable : Page) (x : Ram) (i : Nat) :
    Except Panic Ram :=
  let pte := x.kmem.entry pagetable i
  if pte.v && !pte.r && !pte.w && !pte.x then do
    let x ← rest x pte.ppn
    return x.setPte pagetable i Pte.zero
  else if pte.v then
    throw .freewalkLeaf
  else
    return x

def freewalk : Nat -> Ram -> Page -> Except Panic Ram
  | 0, _, _ => .error .freewalkDepth
  | depth + 1, x, pagetable => do
      let x ← (List.range 512).foldlM (freewalkEntry (freewalk depth) pagetable) x
      x.kfree pagetable

def uvmfree (x : Ram) (pagetable : Page) (sz : Nat) : Except Panic Ram := do
  let x ← if 0 < sz then x.uvmunmap pagetable 0 (pgroundup sz / PGSIZE) true else pure x
  freewalk 3 x pagetable

def uvmcopyLoop (old new : Page) : Nat -> Ram -> Nat -> Except Panic (Ram × Bool)
  | 0, x, _ => return (x, true)
  | n + 1, x, i => do
      let (_, loc) ← walk x.kmem old i false
      match loc with
      | none => uvmcopyLoop old new n x (i + PGSIZE)
      | some (p, k) =>
        let pte := x.kmem.entry p k
        if !pte.v then
          uvmcopyLoop old new n x (i + PGSIZE)
        else
          match x.kalloc with
          | none =>
            let x ← x.uvmunmap new 0 (i / PGSIZE) true
            return (x, false)
          | some (mem, x) =>
            let (x, mapped) ← (x.copyPage mem pte.ppn).mappages new i PGSIZE mem pte.perm
            if mapped then
              uvmcopyLoop old new n x (i + PGSIZE)
            else
              let x ← x.kfree mem
              let x ← x.uvmunmap new 0 (i / PGSIZE) true
              return (x, false)

def uvmcopy (x : Ram) (old new : Page) (sz : Nat) : Except Panic (Ram × Bool) :=
  uvmcopyLoop old new (pagesBetween 0 sz) x 0

def uvmclear (x : Ram) (pagetable : Page) (va : Nat) : Except Panic Ram := do
  let (_, loc) ← walk x.kmem pagetable va false
  match loc with
  | none => throw .uvmclear
  | some (p, i) => return x.setPte p i { x.kmem.entry p i with u := false }

def procPagetable (x : Ram) (trampoline trapframe : Page) : Except Panic (Ram × Option Page) :=
  match x.uvmcreate with
  | none => return (x, none)
  | some (pagetable, x) => do
      let (x, mapped) ← x.mappages pagetable TRAMPOLINE PGSIZE trampoline
        { r := true, w := false, x := true, u := false }
      if !mapped then
        let x ← x.uvmfree pagetable 0
        return (x, none)
      else
        let (x, mapped) ← x.mappages pagetable TRAPFRAME PGSIZE trapframe
          { r := true, w := true, x := false, u := false }
        if !mapped then
          let x ← x.uvmunmap pagetable TRAMPOLINE 1 false
          let x ← x.uvmfree pagetable 0
          return (x, none)
        else
          return (x, some pagetable)

def procFreepagetable (x : Ram) (pagetable : Page) (sz : Nat) : Except Panic Ram := do
  let x ← x.uvmunmap pagetable TRAMPOLINE 1 false
  let x ← x.uvmunmap pagetable TRAPFRAME 1 false
  x.uvmfree pagetable sz

end Ram

/-!
## The page tables

Forgetting the bytes gives the functions on `Kmem`.
-/

section Erase

variable {α β : Type}

def erase (res : Except Panic (Ram × α)) : Except Panic (Kmem × α) :=
  res.map fun (x, a) => (x.kmem, a)

theorem kalloc_kmem (x : Ram) :
    x.kalloc.map (fun (pg, y) => (pg, y.kmem)) = kalloc x.kmem := by
  unfold Ram.kalloc
  cases kalloc x.kmem with
  | none => rfl
  | some taken => rfl

theorem kfree_kmem (x : Ram) (pg : Page) : (x.kfree pg).map Ram.kmem = kfree x.kmem pg := by
  unfold Ram.kfree
  cases kfree x.kmem pg with
  | error e => rfl
  | ok m => rfl

theorem mappages_kmem (x : Ram) (r : Page) (va size : Nat) (pa : Page) (perm : Perm) :
    erase (x.mappages r va size pa perm) = mappages x.kmem r va size pa perm := by
  unfold erase Ram.mappages
  cases mappages x.kmem r va size pa perm with
  | error e => rfl
  | ok res => rfl

theorem walk_memory {m m' : Kmem} {loc : Option (Page × Nat)}
    (h : walk m r va false = .ok (m', loc)) : m' = m := by
  unfold walk at h
  split at h
  · cases h
  · rw [walkLoop_false] at h
    cases h
    rfl

theorem walk_sim {m : Kmem} {f : Kmem × Option (Page × Nat) -> Except Panic α}
    {f' : Kmem × Option (Page × Nat) -> Except Panic β} {g : α -> β}
    (hf : forall loc, (f (m, loc)).map g = f' (m, loc)) :
    (walk m r va false >>= f).map g = walk m r va false >>= f' := by
  cases hwalk : walk m r va false with
  | error e => rfl
  | ok res =>
    rcases res with ⟨m', loc⟩
    have hm := walk_memory hwalk
    subst hm
    exact hf loc

theorem uvmunmapLoop_kmem (doFree : Bool) (n : Nat) (x : Ram) (r : Page) (a : Nat) :
    (Ram.uvmunmapLoop doFree n x r a).map Ram.kmem = uvmunmapLoop doFree n x.kmem r a := by
  induction n generalizing x a with
  | zero => rfl
  | succ n ih =>
    refine walk_sim fun loc => ?_
    cases loc with
    | none => exact ih x (a + PGSIZE)
    | some slot =>
      rcases slot with ⟨p, i⟩
      dsimp only
      cases (x.kmem.entry p i).v with
      | false => exact ih x (a + PGSIZE)
      | true =>
        cases doFree with
        | false => exact ih _ (a + PGSIZE)
        | true =>
          exact bind_sim (kfree_kmem x _) fun y =>
            ih (y.setPte p i Pte.zero) (a + PGSIZE)

theorem uvmunmap_kmem (x : Ram) (r : Page) (va npages : Nat) (doFree : Bool) :
    (x.uvmunmap r va npages doFree).map Ram.kmem = uvmunmap x.kmem r va npages doFree := by
  unfold Ram.uvmunmap uvmunmap
  split
  · rfl
  · exact uvmunmapLoop_kmem doFree npages x r va

theorem uvmdealloc_kmem (x : Ram) (r : Page) (oldsz newsz : Nat) :
    erase (x.uvmdealloc r oldsz newsz) = uvmdealloc x.kmem r oldsz newsz := by
  unfold Ram.uvmdealloc uvmdealloc
  split
  · rfl
  split
  · exact bind_sim (uvmunmap_kmem x r _ _ true) fun _ => rfl
  · rfl

theorem uvmallocLoop_kmem (oldsz : Nat) (xperm : Perm) (n : Nat) (x : Ram) (r : Page) (a : Nat) :
    erase (Ram.uvmallocLoop oldsz xperm n x r a) = uvmallocLoop oldsz xperm n x.kmem r a := by
  induction n generalizing x a with
  | zero => rfl
  | succ n ih =>
    unfold Ram.uvmallocLoop uvmallocLoop
    rw [← kalloc_kmem]
    cases x.kalloc with
    | none => exact bind_sim (uvmdealloc_kmem x r a oldsz) fun _ => rfl
    | some taken =>
      rcases taken with ⟨mem, y⟩
      refine bind_sim (mappages_kmem (y.memset mem 0) r a PGSIZE mem _) ?_
      rintro ⟨z, mapped⟩
      cases mapped with
      | true => exact ih z (a + PGSIZE)
      | false =>
        exact bind_sim (kfree_kmem z mem) fun w =>
          bind_sim (uvmdealloc_kmem w r a oldsz) fun _ => rfl

theorem uvmalloc_kmem (x : Ram) (r : Page) (oldsz newsz : Nat) (xperm : Perm) :
    erase (x.uvmalloc r oldsz newsz xperm) = uvmalloc x.kmem r oldsz newsz xperm := by
  unfold Ram.uvmalloc uvmalloc
  split
  · rfl
  · exact bind_sim (uvmallocLoop_kmem (pgroundup oldsz) xperm _ x r _) fun _ => rfl

theorem foldlM_kmem {f : Ram -> Nat -> Except Panic Ram} {g : Kmem -> Nat -> Except Panic Kmem}
    (hstep : forall x i, (f x i).map Ram.kmem = g x.kmem i) (l : List Nat) (x : Ram) :
    (l.foldlM f x).map Ram.kmem = l.foldlM g x.kmem := by
  induction l generalizing x with
  | nil => rfl
  | cons i l ih =>
    rw [List.foldlM_cons, List.foldlM_cons]
    exact bind_sim (hstep x i) ih

theorem freewalk_kmem (depth : Nat) (x : Ram) (r : Page) :
    (Ram.freewalk depth x r).map Ram.kmem = freewalk depth x.kmem r := by
  induction depth generalizing x r with
  | zero => rfl
  | succ depth ih =>
    have hentry : forall (y : Ram) (i : Nat),
        (Ram.freewalkEntry (Ram.freewalk depth) r y i).map Ram.kmem =
          freewalkBody depth r y.kmem i := by
      intro y i
      unfold Ram.freewalkEntry freewalkBody
      dsimp only
      split
      · exact bind_sim (ih y _) fun _ => rfl
      split
      · rfl
      · rfl
    exact bind_sim (foldlM_kmem hentry (List.range 512) x) fun y => kfree_kmem y r

theorem uvmfree_kmem (x : Ram) (r : Page) (sz : Nat) :
    (x.uvmfree r sz).map Ram.kmem = uvmfree x.kmem r sz := by
  unfold Ram.uvmfree uvmfree
  split
  · exact bind_sim (uvmunmap_kmem x r 0 _ true) fun y => freewalk_kmem 3 y r
  · simp only [pure_bind]
    exact freewalk_kmem 3 x r

theorem vmfault_kmem (x : Ram) (p : MyProc) (r : Page) (va : Nat) :
    erase (x.vmfault p r va) = vmfault x.kmem p r va := by
  unfold Ram.vmfault vmfault
  split
  · rfl
  refine (map_bind _ _ _).trans (congrArg _ (funext fun mapped => ?_))
  cases mapped with
  | true => rfl
  | false =>
    rw [← kalloc_kmem]
    cases x.kalloc with
    | none => rfl
    | some taken =>
      rcases taken with ⟨mem, x1⟩
      refine bind_sim (mappages_kmem (x1.memset mem 0) _ _ PGSIZE mem _) ?_
      rintro ⟨x2, done⟩
      cases done with
      | true => rfl
      | false => exact bind_sim (kfree_kmem x2 mem) fun _ => rfl

theorem touch_kmem (x : Ram) (p : MyProc) (r : Page) (va : Nat) :
    erase (x.touch p r va) = touch x.kmem p r va := by
  refine (map_bind _ _ _).trans (congrArg _ (funext fun pa => ?_))
  cases pa with
  | some pa => rfl
  | none => exact vmfault_kmem x p r va

theorem copyoutLoop_kmem (p : MyProc) (r : Page) (turns : Nat) (x : Ram) (src : Nat -> UInt8)
    (va len : Nat) :
    erase (Ram.copyoutLoop p r turns x src va len) = copyoutLoop p r turns x.kmem va len := by
  induction turns generalizing x src va len with
  | zero => rfl
  | succ turns ih =>
    unfold Ram.copyoutLoop copyoutLoop
    split
    · rfl
    dsimp only
    split
    · rfl
    next hva =>
      have hnext : (pgrounddown va + PGSIZE) % 2 ^ 64 = pgrounddown va + PGSIZE := by
        unfold MAXVA PGSIZE at *
        omega
      rw [hnext]
      refine bind_sim (touch_kmem x p r _) ?_
      rintro ⟨y, pa⟩
      cases pa with
      | none => rfl
      | some pa =>
        refine walk_sim fun loc => ?_
        cases loc with
        | none => rfl
        | some slot =>
          rcases slot with ⟨q, i⟩
          dsimp only
          split
          · rfl
          · exact ih _ _ _ _

theorem copyout_kmem (x : Ram) (p : MyProc) (r : Page) (va : Nat) (src : Nat -> UInt8) (len : Nat) :
    erase (x.copyout p r va src len) = copyout x.kmem p r va len :=
  copyoutLoop_kmem p r len x src va len

theorem uvmclear_kmem (x : Ram) (r : Page) (va : Nat) :
    (x.uvmclear r va).map Ram.kmem = uvmclear x.kmem r va := by
  refine walk_sim fun loc => ?_
  cases loc with
  | none => rfl
  | some slot => rfl

theorem uvmcreate_kmem (x : Ram) :
    x.uvmcreate.map (fun (pg, y) => (pg, y.kmem)) = uvmcreate x.kmem := by
  unfold Ram.uvmcreate uvmcreate
  rw [← kalloc_kmem]
  cases x.kalloc with
  | none => rfl
  | some taken => rfl

theorem procPagetable_kmem (x : Ram) (trampoline trapframe : Page) :
    erase (x.procPagetable trampoline trapframe) = procPagetable x.kmem trampoline trapframe := by
  unfold Ram.procPagetable procPagetable
  rw [← uvmcreate_kmem]
  cases x.uvmcreate with
  | none => rfl
  | some made =>
    rcases made with ⟨r, y⟩
    refine bind_sim (mappages_kmem y r TRAMPOLINE PGSIZE trampoline _) ?_
    rintro ⟨z, mapped⟩
    cases mapped with
    | false => exact bind_sim (uvmfree_kmem z r 0) fun _ => rfl
    | true =>
      refine bind_sim (mappages_kmem z r TRAPFRAME PGSIZE trapframe _) ?_
      rintro ⟨w, mapped⟩
      cases mapped with
      | true => rfl
      | false =>
        exact bind_sim (uvmunmap_kmem w r TRAMPOLINE 1 false) fun v =>
          bind_sim (uvmfree_kmem v r 0) fun _ => rfl

theorem procFreepagetable_kmem (x : Ram) (r : Page) (sz : Nat) :
    (x.procFreepagetable r sz).map Ram.kmem = procFreepagetable x.kmem r sz :=
  bind_sim (uvmunmap_kmem x r TRAMPOLINE 1 false) fun y =>
    bind_sim (uvmunmap_kmem y r TRAPFRAME 1 false) fun z => uvmfree_kmem z r sz

end Erase

/-!
## The bytes

Functions that only free pages change the bytes of the pages that they free.
-/

structure Freeing (x y : Ram) : Prop where
  free : x.kmem.free ⊆ y.kmem.free
  data : forall q, q ∉ y.kmem.free -> y.data q = x.data q

section Bytes

variable {x y z : Ram} {X X' X'' : Page -> Nat}

theorem Freeing.refl (x : Ram) : Freeing x x :=
  ⟨List.Subset.refl _, fun _ _ => rfl⟩

theorem Freeing.trans (h : Freeing x y) (h' : Freeing y z) : Freeing x z :=
  ⟨List.Subset.trans h.free h'.free,
    fun q hq => (h'.data q hq).trans (h.data q fun hmem => hq (h'.free hmem))⟩

theorem Freeing.setPte (h : Freeing x y) (p : Page) (i : Nat) (e : Pte) :
    Freeing x (y.setPte p i e) :=
  ⟨h.free, h.data⟩

theorem freeing_kfree (hrun : x.kfree pg = .ok y) : Freeing x y := by
  unfold Ram.kfree Vm.kfree at hrun
  split at hrun
  · cases hrun
  · cases hrun
    refine ⟨List.subset_cons_self pg _, ?_⟩
    intro q hq
    refine update_of_ne ?_ _ _
    rintro rfl
    exact hq List.mem_cons_self

theorem freeing_uvmunmapLoop {doFree : Bool} {n : Nat} {a : Nat}
    (hrun : Ram.uvmunmapLoop doFree n x r a = .ok y) : Freeing x y := by
  induction n generalizing x a with
  | zero =>
    cases hrun
    exact Freeing.refl _
  | succ n ih =>
    unfold Ram.uvmunmapLoop at hrun
    rcases bind_eq_ok.mp hrun with ⟨⟨_, loc⟩, _, hrun⟩
    cases loc with
    | none => exact ih hrun
    | some slot =>
      rcases slot with ⟨p, i⟩
      dsimp only at hrun
      split at hrun
      · exact ih hrun
      · cases doFree with
        | false => exact ((Freeing.refl x).setPte p i Pte.zero).trans (ih hrun)
        | true =>
          rcases bind_eq_ok.mp hrun with ⟨x1, hfree, hrun⟩
          exact ((freeing_kfree hfree).setPte p i Pte.zero).trans (ih hrun)

theorem freeing_uvmunmap {npages : Nat} {doFree : Bool}
    (hrun : x.uvmunmap r va npages doFree = .ok y) : Freeing x y := by
  unfold Ram.uvmunmap at hrun
  split at hrun
  · cases hrun
  · exact freeing_uvmunmapLoop hrun

theorem freeing_uvmdealloc {oldsz newsz : Nat}
    (hrun : x.uvmdealloc r oldsz newsz = .ok (y, sz)) : Freeing x y := by
  unfold Ram.uvmdealloc at hrun
  split at hrun
  · cases hrun
    exact Freeing.refl _
  split at hrun
  · rcases bind_eq_ok.mp hrun with ⟨x1, hun, hrun⟩
    cases hrun
    exact freeing_uvmunmap hun
  · cases hrun
    exact Freeing.refl _

theorem freeing_foldlM {f : Ram -> Nat -> Except Panic Ram}
    (hstep : forall x i y, f x i = .ok y -> Freeing x y) {l : List Nat}
    (hrun : l.foldlM f x = .ok y) : Freeing x y := by
  induction l generalizing x with
  | nil =>
    cases hrun
    exact Freeing.refl _
  | cons i l ih =>
    rw [List.foldlM_cons] at hrun
    rcases bind_eq_ok.mp hrun with ⟨x1, hfirst, hrun⟩
    exact (hstep x i x1 hfirst).trans (ih hrun)

theorem freeing_freewalk {depth : Nat} (hrun : Ram.freewalk depth x r = .ok y) :
    Freeing x y := by
  induction depth generalizing x r y with
  | zero => cases hrun
  | succ depth ih =>
    unfold Ram.freewalk at hrun
    rcases bind_eq_ok.mp hrun with ⟨x1, hfold, hrun⟩
    refine (freeing_foldlM ?_ hfold).trans (freeing_kfree hrun)
    intro x i y hstep
    unfold Ram.freewalkEntry at hstep
    dsimp only at hstep
    split at hstep
    · rcases bind_eq_ok.mp hstep with ⟨x2, hrest, hstep⟩
      cases hstep
      exact (ih hrest).setPte r i Pte.zero
    split at hstep
    · cases hstep
    · cases hstep
      exact Freeing.refl _

theorem freeing_uvmfree (hrun : x.uvmfree r sz = .ok y) : Freeing x y := by
  unfold Ram.uvmfree at hrun
  dsimp only at hrun
  split at hrun
  · rcases bind_eq_ok.mp hrun with ⟨x1, hun, hrun⟩
    exact (freeing_uvmunmap hun).trans (freeing_freewalk hrun)
  · rw [pure_bind] at hrun
    exact freeing_freewalk hrun

theorem freeing_procFreepagetable (hrun : x.procFreepagetable r sz = .ok y) : Freeing x y := by
  unfold Ram.procFreepagetable at hrun
  rcases bind_eq_ok.mp hrun with ⟨x1, hun, hrun⟩
  rcases bind_eq_ok.mp hrun with ⟨x2, hun', hrun⟩
  exact ((freeing_uvmunmap hun).trans (freeing_uvmunmap hun')).trans (freeing_uvmfree hrun)

/-- Pages move between the uses and the free list, and the bytes of all other pages stay. -/
structure Moves (x y : Ram) (X X' : Page -> Nat) : Prop where
  conserve : Conserve x.kmem y.kmem X X'
  data : forall q, X q + x.kmem.free.count q = 0 -> y.data q = x.data q

theorem Moves.refl (x : Ram) (X : Page -> Nat) : Moves x x X X :=
  ⟨Conserve.refl _ _, fun _ _ => rfl⟩

theorem Moves.trans (h : Moves x y X X') (h' : Moves y z X' X'') : Moves x z X X'' := by
  refine ⟨h.conserve.trans h'.conserve, ?_⟩
  intro q hq
  rw [h'.data q (by rw [h.conserve.total q]; exact hq), h.data q hq]

theorem Moves.add (h : Moves x y X X') (Y : Page -> Nat) :
    Moves x y (fun q => X q + Y q) (fun q => X' q + Y q) :=
  ⟨h.conserve.add Y, fun q hq => h.data q (by omega)⟩

theorem Moves.congr {Y Y' : Page -> Nat} (h : Moves x y X X') (hX : forall q, Y q = X q)
    (hX' : forall q, Y' q = X' q) : Moves x y Y Y' :=
  ⟨h.conserve.congr hX hX', fun q hq => h.data q (by rw [← hX q]; exact hq)⟩

theorem Freeing.moves (h : Freeing x y) (hcons : Conserve x.kmem y.kmem X X') : Moves x y X X' := by
  refine ⟨hcons, ?_⟩
  intro q hq
  have htotal := hcons.total q
  exact h.data q (List.count_eq_zero.mp (by omega))

theorem Moves.of_data (hcons : Conserve x.kmem y.kmem X X')
    (hdata : forall q, q ∉ x.kmem.free -> q ∉ y.kmem.free -> y.data q = x.data q) :
    Moves x y X X' := by
  refine ⟨hcons, ?_⟩
  intro q hq
  have htotal := hcons.total q
  exact hdata q (List.count_eq_zero.mp (by omega)) (List.count_eq_zero.mp (by omega))

theorem Moves.store (hpg : X pg ≠ 0) (off n : Nat) (src : Nat -> UInt8) :
    Moves x (x.store pg off n src) X X := by
  refine ⟨Conserve.refl _ _, ?_⟩
  intro q hq
  refine update_of_ne ?_ _ _
  rintro rfl
  omega

theorem kalloc_some (h : x.kalloc = some (pg, y)) : kalloc x.kmem = some (pg, y.kmem) := by
  rw [← kalloc_kmem, h]
  rfl

theorem kalloc_free (h : x.kalloc = some (pg, y)) : x.kmem.free = pg :: y.kmem.free :=
  (kalloc_conserve (kalloc_some h) fun _ => 0).2

theorem kalloc_data (h : x.kalloc = some (pg, y)) :
    y.data = update x.data pg fun _ => 5 := by
  rcases Option.map_eq_some_iff.mp h with ⟨taken, _, heq⟩
  cases heq
  rfl

theorem kalloc_memset_data {q : Page} (h : x.kalloc = some (pg, y)) (hq : q ∉ x.kmem.free)
    (c : UInt8) : (y.memset pg c).data q = x.data q := by
  have hne : q ≠ pg := by
    rintro rfl
    exact hq (by rw [kalloc_free h]; exact List.mem_cons_self)
  have hset : (y.memset pg c).data q = y.data q := update_of_ne hne _ _
  rw [hset, kalloc_data h, update_of_ne hne]

theorem Moves.taken (halloc : x.kalloc = some (pg, y))
    (hcons : Conserve y.kmem z.kmem (one pg) (one pg))
    (hdata : forall q, q ≠ pg -> z.data q = y.data q) :
    Moves x z (fun _ => 0) (one pg) := by
  have htake := (kalloc_conserve (kalloc_some halloc) fun _ => 0).1
  refine ⟨(htake.congr (fun _ => rfl) fun q => (Nat.zero_add _).symm).trans hcons, ?_⟩
  intro q hq
  have hne : q ≠ pg := by
    rintro rfl
    rw [kalloc_free halloc, List.count_cons_self] at hq
    omega
  rw [hdata q hne, kalloc_data halloc, update_of_ne hne]

theorem mappages_data {size : Nat} {pa : Page} {perm : Perm} {done : Bool}
    (hrun : x.mappages r va size pa perm = .ok (y, done)) : y.data = x.data := by
  unfold Ram.mappages at hrun
  rcases map_eq_ok.mp hrun with ⟨res, _, heq⟩
  cases heq
  rfl

theorem uvmclear_data (hrun : x.uvmclear r va = .ok y) : y.data = x.data := by
  unfold Ram.uvmclear at hrun
  rcases bind_eq_ok.mp hrun with ⟨⟨_, loc⟩, _, hrun⟩
  cases loc with
  | none => cases hrun
  | some slot =>
    cases hrun
    rfl

theorem procPagetable_data {trampoline trapframe : Page} {res : Option Page}
    (hrun : x.procPagetable trampoline trapframe = .ok (y, res)) (q : Page)
    (hx : q ∉ x.kmem.free) (hy : q ∉ y.kmem.free) : y.data q = x.data q := by
  unfold Ram.procPagetable Ram.uvmcreate at hrun
  cases halloc : x.kalloc with
  | none =>
    rw [halloc] at hrun
    cases hrun
    rfl
  | some taken =>
    rcases taken with ⟨r, x1⟩
    rw [halloc] at hrun
    have hfirst := kalloc_memset_data halloc hx 0
    rcases bind_eq_ok.mp hrun with ⟨⟨x2, mapped⟩, hmap, hrun⟩
    have hdata2 := mappages_data hmap
    dsimp only at hrun
    cases mapped with
    | false =>
      rcases bind_eq_ok.mp hrun with ⟨x3, hfree, hrun⟩
      cases hrun
      rw [(freeing_uvmfree hfree).data q hy, hdata2, hfirst]
    | true =>
      rcases bind_eq_ok.mp hrun with ⟨⟨x3, mapped'⟩, hmap', hrun⟩
      have hdata3 := mappages_data hmap'
      dsimp only at hrun
      cases mapped' with
      | false =>
        rcases bind_eq_ok.mp hrun with ⟨x4, hun, hrun⟩
        rcases bind_eq_ok.mp hrun with ⟨x5, hfree, hrun⟩
        cases hrun
        rw [((freeing_uvmunmap hun).trans (freeing_uvmfree hfree)).data q hy, hdata3, hdata2,
          hfirst]
      | true =>
        cases hrun
        rw [hdata3, hdata2, hfirst]

theorem vmfault_data {p : MyProc} {res : Option Page}
    (hrun : x.vmfault p r va = .ok (y, res)) (q : Page) (hx : q ∉ x.kmem.free)
    (hy : q ∉ y.kmem.free) : y.data q = x.data q := by
  unfold Ram.vmfault at hrun
  split at hrun
  · cases hrun
    rfl
  dsimp only at hrun
  rcases bind_eq_ok.mp hrun with ⟨mapped, _, hrun⟩
  split at hrun
  · cases hrun
    rfl
  cases halloc : x.kalloc with
  | none =>
    rw [halloc] at hrun
    cases hrun
    rfl
  | some taken =>
    rcases taken with ⟨mem, x1⟩
    rw [halloc] at hrun
    have hfirst := kalloc_memset_data halloc hx 0
    rcases bind_eq_ok.mp hrun with ⟨⟨x2, done⟩, hmap, hrun⟩
    have hdata2 := mappages_data hmap
    dsimp only at hrun
    split at hrun
    · cases hrun
      rw [hdata2, hfirst]
    · rcases bind_eq_ok.mp hrun with ⟨x3, hfree, hrun⟩
      cases hrun
      rw [(freeing_kfree hfree).data q hy, hdata2, hfirst]

end Bytes

end Vm
end Xv6
