import Xv6.Lib.Radix
import Xv6.Lib.Result

/-!
# Physical pages

`kalloc.c` over the pages of physical memory.  A page is named by its physical
page number; its contents are read as the 512 page-table entries it may hold.
What user pages, trapframes and argument buffers contain plays no part and is not
recorded.
-/

namespace Xv6
namespace Vm

abbrev Page := Nat

def PGSIZE : Nat := 4096
def KERNBASE : Nat := 0x80000000
def PHYSTOP : Nat := KERNBASE + 128 * 1024 * 1024

/-- A page-table entry: `PTE2PA`, and the bits `PTE_V`, `PTE_R`, `PTE_W`, `PTE_X`
and `PTE_U`. -/
structure Pte where
  ppn : Page
  v : Bool
  r : Bool
  w : Bool
  x : Bool
  u : Bool
deriving DecidableEq, Repr

def Pte.ofBits (bits : Nat) : Pte :=
  { ppn := bits / 2 ^ 10
    v := bits.testBit 0
    r := bits.testBit 1
    w := bits.testBit 2
    x := bits.testBit 3
    u := bits.testBit 4 }

def Pte.zero : Pte :=
  Pte.ofBits 0

/-- The panics of `kalloc.c`, `vm.c`, `exec.c`, `file.c` and `proc.c`; `kerneltrap` is a
fault inside the kernel, such as a null pointer. -/
inductive Panic where
  | kfree
  | walk
  | mappagesVaNotAligned
  | mappagesSizeNotAligned
  | mappagesSize
  | mappagesRemap
  | uvmunmapNotAligned
  | freewalkLeaf
  | freewalkDepth
  | uvmclear
  | loadsegAddress
  | filedup
  | fileclose
  | exec
  | initExiting
  | kerneltrap
deriving DecidableEq, Repr

/-- Physical memory: the first page after the kernel, `kmem.freelist`, and the
entries of every page. -/
structure Kmem where
  kend : Page
  free : List Page
  entry : Page -> Nat -> Pte

variable {m m' : Kmem} {X X' : Page -> Nat} {pg : Page}

def Kmem.memset (m : Kmem) (pg : Page) (c : Nat) : Kmem :=
  { m with entry := Function.update m.entry pg (fun _ => Pte.ofBits (c * 0x0101010101010101)) }

def Kmem.set (m : Kmem) (pg : Page) (i : Nat) (e : Pte) : Kmem :=
  { m with entry := Lib.Radix.set m.entry pg i e }

def kfree (m : Kmem) (pg : Page) : Except Panic Kmem :=
  if pg < m.kend ∨ PHYSTOP / PGSIZE <= pg then
    .error .kfree
  else
    .ok { m.memset pg 1 with free := pg :: m.free }

def kalloc (m : Kmem) : Option (Page × Kmem) :=
  match m.free with
  | [] => none
  | pg :: rest => some (pg, { m with free := rest }.memset pg 5)

/-!
## Accounting

`X` says how often each page is in use.  An operation conserves the pages when it
moves them between the uses and the free list only, and writes to no page outside
the two.
-/

def Managed (m : Kmem) (pg : Page) : Prop :=
  m.kend <= pg ∧ pg < PHYSTOP / PGSIZE

instance (m : Kmem) (pg : Page) : Decidable (Managed m pg) :=
  inferInstanceAs (Decidable (_ ∧ _))

def one (pg q : Page) : Nat :=
  if pg = q then 1 else 0

@[simp]
theorem one_self (pg : Page) : one pg pg = 1 := by
  simp [one]

theorem one_of_ne {q : Page} (h : pg ≠ q) : one pg q = 0 := by
  simp [one, h]

theorem count_cons_one (pg q : Page) (l : List Page) :
    (pg :: l).count q = one pg q + l.count q := by
  rw [List.count_cons]
  unfold one
  by_cases h : pg = q
  · subst h
    simp
    omega
  · simp [h]

structure Good (m : Kmem) (X : Page -> Nat) : Prop where
  le_one : forall q, X q + m.free.count q <= 1
  managed : forall q, X q + m.free.count q ≠ 0 -> Managed m q

structure Conserve (m m' : Kmem) (X X' : Page -> Nat) : Prop where
  kend_eq : m'.kend = m.kend
  total : forall q, X' q + m'.free.count q = X q + m.free.count q
  frame : forall p, X p + m.free.count p = 0 -> m'.entry p = m.entry p

theorem Conserve.refl (m : Kmem) (X : Page -> Nat) : Conserve m m X X :=
  { kend_eq := rfl, total := fun _ => rfl, frame := fun _ _ => rfl }

theorem Conserve.trans {m'' : Kmem} {X'' : Page -> Nat}
    (h : Conserve m m' X X') (h' : Conserve m' m'' X' X'') : Conserve m m'' X X'' := by
  constructor
  · rw [h'.kend_eq, h.kend_eq]
  · intro q
    rw [h'.total q, h.total q]
  · intro p hp
    rw [h'.frame p (by rw [h.total p]; exact hp), h.frame p hp]

theorem Conserve.add (h : Conserve m m' X X')
    (Y : Page -> Nat) : Conserve m m' (fun q => X q + Y q) (fun q => X' q + Y q) := by
  constructor
  · exact h.kend_eq
  · intro q
    have htotal := h.total q
    omega
  · intro p hp
    apply h.frame p
    omega

theorem Conserve.congr {Y Y' : Page -> Nat} (h : Conserve m m' X X')
    (hX : forall q, Y q = X q) (hX' : forall q, Y' q = X' q) : Conserve m m' Y Y' := by
  rw [show Y = X from funext hX, show Y' = X' from funext hX']
  exact h

theorem Conserve.managed_iff (h : Conserve m m' X X')
    (q : Page) : Managed m' q <-> Managed m q := by
  unfold Managed
  rw [h.kend_eq]

theorem Good.conserve (hgood : Good m X) (h : Conserve m m' X X') : Good m' X' := by
  constructor
  · intro q
    rw [h.total q]
    exact hgood.le_one q
  · intro q hq
    rw [h.managed_iff]
    apply hgood.managed q
    rw [← h.total q]
    exact hq

theorem Good.mono {Y : Page -> Nat} (h : Good m X) (hle : forall q, Y q <= X q) : Good m Y := by
  constructor
  · intro q
    have h1 := h.le_one q
    have h2 := hle q
    omega
  · intro q hq
    apply h.managed q
    have h2 := hle q
    omega

theorem Conserve.memset (hpg : X pg ≠ 0) (c : Nat) : Conserve m (m.memset pg c) X X := by
  constructor
  · rfl
  · intro q
    rfl
  · intro p hp
    have hne : p ≠ pg := by
      intro heq
      subst heq
      omega
    simp [Kmem.memset, hne]

theorem Conserve.set (hpg : X pg ≠ 0) (i : Nat) (e : Pte) : Conserve m (m.set pg i e) X X := by
  constructor
  · rfl
  · intro q
    rfl
  · intro p hp
    have hne : p ≠ pg := by
      intro heq
      subst heq
      omega
    exact Lib.Radix.set_of_ne m.entry i e hne

theorem kalloc_eq_none : kalloc m = none <-> m.free = [] := by
  unfold kalloc
  cases m.free <;> simp

theorem kalloc_conserve (h : kalloc m = some (pg, m')) (X : Page -> Nat) :
    Conserve m m' X (fun q => X q + one pg q) ∧ m.free = pg :: m'.free := by
  unfold kalloc at h
  cases hfree : m.free with
  | nil =>
    rw [hfree] at h
    cases h
  | cons p rest =>
    rw [hfree] at h
    cases h
    refine ⟨?_, rfl⟩
    constructor
    · rfl
    · intro q
      simp only [Kmem.memset]
      rw [hfree, count_cons_one]
      omega
    · intro q hq
      have hne : q ≠ pg := by
        intro heq
        subst heq
        rw [hfree, count_cons_one, one_self] at hq
        omega
      simp [Kmem.memset, hne]

theorem kfree_conserve (hgood : Good m (fun q => X q + one pg q)) :
    exists m', kfree m pg = .ok m' ∧ Conserve m m' (fun q => X q + one pg q) X := by
  have hmanaged : Managed m pg := by
    apply hgood.managed pg
    simp only [one_self]
    omega
  rcases hmanaged with ⟨hlow, hhigh⟩
  unfold kfree
  rw [if_neg (not_or.mpr ⟨Nat.not_lt.mpr hlow, Nat.not_le.mpr hhigh⟩)]
  refine ⟨_, rfl, ?_⟩
  constructor
  · rfl
  · intro q
    rw [count_cons_one]
    exact (Nat.add_assoc _ _ _).symm
  · intro p hp
    have hne : p ≠ pg := by
      intro heq
      subst heq
      rw [one_self] at hp
      omega
    simp [Kmem.memset, hne]

end Vm
end Xv6
