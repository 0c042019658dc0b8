import Xv6.Vm.Kalloc

/-!
# Page tables

The functions of `vm.c` on user page tables.  Addresses are 64-bit numbers; a loop
over the pages of a range runs over their number.
-/

namespace Xv6
namespace Vm

def MAXVA : Nat := 2 ^ (9 + 9 + 9 + 12 - 1)
def TRAMPOLINE : Nat := MAXVA - PGSIZE
def TRAPFRAME : Nat := TRAMPOLINE - PGSIZE

def pgroundup (sz : Nat) : Nat :=
  (sz + (PGSIZE - 1)) % 2 ^ 64 / PGSIZE * PGSIZE

def pgrounddown (a : Nat) : Nat :=
  a / PGSIZE * PGSIZE

def PX (level va : Nat) : Nat :=
  va / 2 ^ (12 + 9 * level) % 512

def pagesBetween (lo hi : Nat) : Nat :=
  (hi - lo + (PGSIZE - 1)) / PGSIZE

def viaInt (x : Nat) : Nat :=
  if x % 2 ^ 32 < 2 ^ 31 then x % 2 ^ 32 else x % 2 ^ 32 + (2 ^ 64 - 2 ^ 32)

structure Perm where
  r : Bool
  w : Bool
  x : Bool
  u : Bool
deriving DecidableEq, Repr

def Perm.pte (perm : Perm) (pa : Page) : Pte :=
  { ppn := pa, v := true, r := perm.r, w := perm.w, x := perm.x, u := perm.u }

def Pte.perm (e : Pte) : Perm :=
  { r := e.r, w := e.w, x := e.x, u := e.u }

def Pte.link (pa : Page) : Pte :=
  { ppn := pa, v := true, r := false, w := false, x := false, u := false }

def walkLoop (alloc : Bool) : Nat -> Kmem -> Page -> Nat -> Kmem × Option (Page × Nat)
  | 0, m, pagetable, va => (m, some (pagetable, PX 0 va))
  | level + 1, m, pagetable, va =>
    let pte := m.entry pagetable (PX (level + 1) va)
    if pte.v then
      walkLoop alloc level m pte.ppn va
    else if !alloc then
      (m, none)
    else
      match kalloc m with
      | none => (m, none)
      | some (pg, m) =>
        walkLoop alloc level
          ((m.memset pg 0).set pagetable (PX (level + 1) va) (Pte.link pg)) pg va

def walk (m : Kmem) (pagetable : Page) (va : Nat) (alloc : Bool) :
    Except Panic (Kmem × Option (Page × Nat)) :=
  if va >= MAXVA then
    .error .walk
  else
    .ok (walkLoop alloc 2 m pagetable va)

def walkaddr (m : Kmem) (pagetable : Page) (va : Nat) : Except Panic (Option Page) := do
  if va >= MAXVA then
    return none
  else
    let (_, loc) ← walk m pagetable va false
    match loc with
    | none => return none
    | some (p, i) =>
      let pte := m.entry p i
      if !pte.v then
        return none
      else if !pte.u then
        return none
      else
        return some pte.ppn

def mappagesLoop : Nat -> Kmem -> Page -> Nat -> Page -> Perm -> Except Panic (Kmem × Bool)
  | 0, m, _, _, _, _ => return (m, true)
  | n + 1, m, pagetable, a, pa, perm => do
      let (m, loc) ← walk m pagetable a true
      match loc with
      | none => return (m, false)
      | some (p, i) =>
        if (m.entry p i).v then
          throw .mappagesRemap
        else
          mappagesLoop n (m.set p i (perm.pte pa)) pagetable (a + PGSIZE) (pa + 1) perm

/-- The result is `true` when the function returns 0. -/
def mappages (m : Kmem) (pagetable : Page) (va size : Nat) (pa : Page) (perm : Perm) :
    Except Panic (Kmem × Bool) :=
  if va % PGSIZE ≠ 0 then
    .error .mappagesVaNotAligned
  else if size % PGSIZE ≠ 0 then
    .error .mappagesSizeNotAligned
  else if size = 0 then
    .error .mappagesSize
  else
    mappagesLoop (size / PGSIZE) m pagetable va pa perm

def uvmcreate (m : Kmem) : Option (Page × Kmem) :=
  match kalloc m with
  | none => none
  | some (pagetable, m) => some (pagetable, m.memset pagetable 0)

def uvmunmapLoop (doFree : Bool) : Nat -> Kmem -> Page -> Nat -> Except Panic Kmem
  | 0, m, _, _ => return m
  | n + 1, m, pagetable, a => do
      let (m, loc) ← walk m pagetable a false
      match loc with
      | none => uvmunmapLoop doFree n m pagetable (a + PGSIZE)
      | some (p, i) =>
        let pte := m.entry p i
        if !pte.v then
          uvmunmapLoop doFree n m pagetable (a + PGSIZE)
        else
          let m ← if doFree then kfree m pte.ppn else pure m
          uvmunmapLoop doFree n (m.set p i Pte.zero) pagetable (a + PGSIZE)

def uvmunmap (m : Kmem) (pagetable : Page) (va npages : Nat) (doFree : Bool) :
    Except Panic Kmem :=
  if va % PGSIZE ≠ 0 then
    .error .uvmunmapNotAligned
  else
    uvmunmapLoop doFree npages m pagetable va

def uvmdealloc (m : Kmem) (pagetable : Page) (oldsz newsz : Nat) :
    Except Panic (Kmem × Nat) :=
  if newsz >= oldsz then
    return (m, oldsz)
  else if pgroundup newsz < pgroundup oldsz then do
    let npages := viaInt ((pgroundup oldsz - pgroundup newsz) / PGSIZE)
    let m ← uvmunmap m pagetable (pgroundup newsz) npages true
    return (m, newsz)
  else
    return (m, newsz)

/-- The loop of `uvmalloc` from page `a` on; the result is `false` after the cleanup. -/
def uvmallocLoop (oldsz : Nat) (xperm : Perm) : Nat -> Kmem -> Page -> Nat ->
    Except Panic (Kmem × Bool)
  | 0, m, _, _ => return (m, true)
  | n + 1, m, pagetable, a =>
    match kalloc m with
    | none => do
        let (m, _) ← uvmdealloc m pagetable a oldsz
        return (m, false)
    | some (mem, m) => do
        let (m, mapped) ← mappages (m.memset mem 0) pagetable a PGSIZE mem
          { xperm with r := true, u := true }
        if mapped then
          uvmallocLoop oldsz xperm n m pagetable (a + PGSIZE)
        else
          let m ← kfree m mem
          let (m, _) ← uvmdealloc m pagetable a oldsz
          return (m, false)

/-- The result is the new size, or 0 on failure. -/
def uvmalloc (m : Kmem) (pagetable : Page) (oldsz newsz : Nat) (xperm : Perm) :
    Except Panic (Kmem × Nat) :=
  if newsz < oldsz then
    return (m, oldsz)
  else do
    let a := pgroundup oldsz
    let (m, done) ← uvmallocLoop a xperm (pagesBetween a newsz) m pagetable a
    return (m, if done then newsz else 0)

def freewalk : Nat -> Kmem -> Page -> Except Panic Kmem
  | 0, _, _ => .error .freewalkDepth
  | depth + 1, m, pagetable => do
      let m ← (List.range 512).foldlM (fun m i =>
        let pte := m.entry pagetable i
        if pte.v && !pte.r && !pte.w && !pte.x then do
          let m ← freewalk depth m pte.ppn
          return m.set pagetable i Pte.zero
        else if pte.v then
          throw .freewalkLeaf
        else
          return m) m
      kfree m pagetable

def uvmfree (m : Kmem) (pagetable : Page) (sz : Nat) : Except Panic Kmem := do
  let m ← if 0 < sz then uvmunmap m pagetable 0 (pgroundup sz / PGSIZE) true else pure m
  freewalk 3 m pagetable

def uvmcopyLoop (old new : Page) : Nat -> Kmem -> Nat -> Except Panic (Kmem × Bool)
  | 0, m, _ => return (m, true)
  | n + 1, m, i => do
      let (m, loc) ← walk m old i false
      match loc with
      | none => uvmcopyLoop old new n m (i + PGSIZE)
      | some (p, k) =>
        let pte := m.entry p k
        if !pte.v then
          uvmcopyLoop old new n m (i + PGSIZE)
        else
          match kalloc m with
          | none =>
            let m ← uvmunmap m new 0 (i / PGSIZE) true
            return (m, false)
          | some (mem, m) =>
            let (m, mapped) ← mappages m new i PGSIZE mem pte.perm
            if mapped then
              uvmcopyLoop old new n m (i + PGSIZE)
            else
              let m ← kfree m mem
              let m ← uvmunmap m new 0 (i / PGSIZE) true
              return (m, false)

def uvmcopy (m : Kmem) (old new : Page) (sz : Nat) : Except Panic (Kmem × Bool) :=
  uvmcopyLoop old new (pagesBetween 0 sz) m 0

def uvmclear (m : Kmem) (pagetable : Page) (va : Nat) : Except Panic Kmem := do
  let (m, loc) ← walk m pagetable va false
  match loc with
  | none => throw .uvmclear
  | some (p, i) => return m.set p i { m.entry p i with u := false }

def ismapped (m : Kmem) (pagetable : Page) (va : Nat) : Except Panic Bool := do
  let (_, loc) ← walk m pagetable va false
  match loc with
  | none => return false
  | some (p, i) => return (m.entry p i).v

structure MyProc where
  pagetable : Page
  sz : Nat

/-- The page mapped at `va`, or `none`. -/
def vmfault (m : Kmem) (p : MyProc) (pagetable : Page) (va : Nat) :
    Except Panic (Kmem × Option Page) := do
  if va >= p.sz then
    return (m, none)
  else
    let va := pgrounddown va
    if (← ismapped m pagetable va) then
      return (m, none)
    else
      match kalloc m with
      | none => return (m, none)
      | some (mem, m) =>
        let (m, mapped) ← mappages (m.memset mem 0) p.pagetable va PGSIZE mem
          { r := true, w := true, x := false, u := true }
        if mapped then
          return (m, some mem)
        else
          let m ← kfree m mem
          return (m, none)

def touch (m : Kmem) (p : MyProc) (pagetable : Page) (va0 : Nat) :
    Except Panic (Kmem × Option Page) := do
  match ← walkaddr m pagetable va0 with
  | some pa0 => return (m, some pa0)
  | none => vmfault m p pagetable va0

/-- The loop of `copyout`; the first argument bounds its turns, each of which copies
a byte or more. -/
def copyoutLoop (p : MyProc) (pagetable : Page) : Nat -> Kmem -> Nat -> Nat ->
    Except Panic (Kmem × Bool)
  | 0, m, _, _ => return (m, true)
  | turns + 1, m, dstva, len =>
    if len = 0 then
      return (m, true)
    else do
      let va0 := pgrounddown dstva
      if va0 >= MAXVA then
        return (m, false)
      else
        let (m, pa0) ← touch m p pagetable va0
        match pa0 with
        | none => return (m, false)
        | some _ =>
          let (m, loc) ← walk m pagetable va0 false
          match loc with
          | none => throw .kerneltrap
          | some (q, i) =>
            if !(m.entry q i).w then
              return (m, false)
            else
              let n := min (PGSIZE - (dstva - va0)) len
              copyoutLoop p pagetable turns m (va0 + PGSIZE) (len - n)

/-- The result is `true` when the function returns 0. -/
def copyout (m : Kmem) (p : MyProc) (pagetable : Page) (dstva len : Nat) :
    Except Panic (Kmem × Bool) :=
  copyoutLoop p pagetable len m dstva len

def copyinLoop (p : MyProc) (pagetable : Page) : Nat -> Kmem -> Nat -> Nat ->
    Except Panic (Kmem × Bool)
  | 0, m, _, _ => return (m, true)
  | turns + 1, m, srcva, len =>
    if len = 0 then
      return (m, true)
    else do
      let va0 := pgrounddown srcva
      let (m, pa0) ← touch m p pagetable va0
      match pa0 with
      | none => return (m, false)
      | some _ =>
        let n := min (PGSIZE - (srcva - va0)) len
        copyinLoop p pagetable turns m (va0 + PGSIZE) (len - n)

def copyin (m : Kmem) (p : MyProc) (pagetable : Page) (srcva len : Nat) :
    Except Panic (Kmem × Bool) :=
  copyinLoop p pagetable len m srcva len

end Vm
end Xv6
