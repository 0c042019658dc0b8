import Xv6.Vm.Contents

/-!
# Writing through a page table

The bytes that the entries of a page table lead to.  Two virtual pages never share a page of
memory, so that a write to one address changes the byte at this address only.
-/

namespace Xv6
namespace Vm

open Lib

namespace Ram

def byteAt (x : Ram) (r : Page) (a : Nat) : UInt8 :=
  x.data (leafAt x.kmem r (a / PGSIZE)).ppn (a % PGSIZE)

end Ram

def Backed (m : Kmem) (r : Page) (a : Nat) : Prop :=
  a / PGSIZE < USERTOP ∧ (leafAt m r (a / PGSIZE)).v = true

/-- The `n` bytes from `a` on have been written, and nothing else. -/
structure Wrote (x y : Ram) (r : Page) (a n : Nat) (src : Nat -> UInt8) : Prop where
  kmem_eq : y.kmem = x.kmem
  bytes : forall b, Backed x.kmem r b ->
    y.byteAt r b = if a <= b ∧ b < a + n then src (b - a) else x.byteAt r b
  frame : forall q, use x.kmem r q = 0 -> y.data q = x.data q

section

variable {x y z : Ram} {r : Page} {a n k : Nat} {src : Nat -> UInt8}

theorem Wrote.refl (x : Ram) (r : Page) (a : Nat) (src : Nat -> UInt8) : Wrote x x r a 0 src := by
  refine ⟨rfl, ?_, fun _ _ => rfl⟩
  intro b _
  rw [if_neg (by omega)]

theorem Wrote.append (h : Wrote x y r a n src) (h' : Wrote y z r (a + n) k fun j => src (n + j)) :
    Wrote x z r a (n + k) src := by
  refine ⟨h'.kmem_eq.trans h.kmem_eq, ?_, ?_⟩
  · intro b hb
    rw [h'.bytes b (by rw [h.kmem_eq]; exact hb), h.bytes b hb]
    by_cases hrest : a + n <= b ∧ b < a + n + k
    · rw [if_pos hrest, if_pos (by omega), show n + (b - (a + n)) = b - a by omega]
    · rw [if_neg hrest]
      by_cases hfirst : a <= b ∧ b < a + n
      · rw [if_pos hfirst, if_pos (by omega)]
      · rw [if_neg hfirst, if_neg (by omega)]
  · intro q hq
    rw [h'.frame q (by rw [h.kmem_eq]; exact hq), h.frame q hq]

theorem Wrote.congr {src' : Nat -> UInt8} (h : Wrote x y r a n src)
    (heq : forall j, j < n -> src' j = src j) : Wrote x y r a n src' := by
  refine ⟨h.kmem_eq, ?_, h.frame⟩
  intro b hb
  rw [h.bytes b hb]
  by_cases hin : a <= b ∧ b < a + n
  · rw [if_pos hin, if_pos hin, heq _ (by omega)]
  · rw [if_neg hin, if_neg hin]

theorem wrote_store (src : Nat -> UInt8) (hgood : Good x.kmem (use x.kmem r))
    (hback : Backed x.kmem r a)
    (hn : n <= PGSIZE - a % PGSIZE) :
    Wrote x (x.store (leafAt x.kmem r (a / PGSIZE)).ppn (a % PGSIZE) n src) r a n src := by
  refine ⟨rfl, ?_, ?_⟩
  · intro b hb
    unfold Ram.byteAt Ram.store
    dsimp only
    by_cases hpage : b / PGSIZE = a / PGSIZE
    · rw [hpage, Function.update_self]
      have hsplit := Nat.div_add_mod b PGSIZE
      have hsplit' := Nat.div_add_mod a PGSIZE
      rw [hpage] at hsplit
      by_cases hin : a <= b ∧ b < a + n
      · rw [if_pos hin, if_pos (by omega), show b % PGSIZE - a % PGSIZE = b - a by omega]
      · rw [if_neg hin, if_neg (by omega)]
    · have hne : (leafAt x.kmem r (b / PGSIZE)).ppn ≠ (leafAt x.kmem r (a / PGSIZE)).ppn :=
        fun heq => hpage (leaf_inj hgood hb.1 hback.1 hb.2 hback.2 heq)
      rw [Function.update_of_ne hne, if_neg]
      rintro ⟨hlo, hhi⟩
      unfold PGSIZE at *
      omega
  · intro q hq
    refine Function.update_of_ne ?_ _ _
    rintro rfl
    have huse := leaf_in_use hback.1 hback.2
    omega

theorem Wrote.moves (h : Wrote x y r a n src) : Moves x y (use x.kmem r) (use y.kmem r) := by
  rw [h.kmem_eq]
  refine ⟨?_, fun q hq => h.frame q (by omega)⟩
  rw [h.kmem_eq]
  exact Conserve.refl _ _

/-!
## What stays
-/

/-- The first `n` virtual pages have the same entries and the same bytes. -/
structure Kept (x y : Ram) (r : Page) (n : Nat) : Prop where
  leaf : forall v, v < n -> leafAt y.kmem r v = leafAt x.kmem r v
  bytes : forall a, a / PGSIZE < n -> (leafAt x.kmem r (a / PGSIZE)).v = true ->
    y.byteAt r a = x.byteAt r a

theorem Kept.refl (x : Ram) (r : Page) (n : Nat) : Kept x x r n :=
  ⟨fun _ _ => rfl, fun _ _ _ => rfl⟩

theorem Kept.mono {n n' : Nat} (h : Kept x y r n) (hle : n' <= n) : Kept x y r n' :=
  ⟨fun v hv => h.leaf v (by omega), fun a ha => h.bytes a (by omega)⟩

theorem Kept.trans {z : Ram} {n : Nat} (h : Kept x y r n) (h' : Kept y z r n) : Kept x z r n := by
  refine ⟨fun v hv => (h'.leaf v hv).trans (h.leaf v hv), fun a ha hvalid => ?_⟩
  rw [h'.bytes a ha (by rw [h.leaf _ ha]; exact hvalid), h.bytes a ha hvalid]

theorem userByte_eq (x : Ram) (r : Page) (a : Nat) :
    x.userByte r a = if a < MAXVA ∧ (leafAt x.kmem r (a / PGSIZE)).v = true ∧
      (leafAt x.kmem r (a / PGSIZE)).u = true then some (x.byteAt r a) else none :=
  rfl

theorem Kept.userByte_eq {n : Nat} (h : Kept x y r n) {a : Nat} (ha : a / PGSIZE < n) :
    y.userByte r a = x.userByte r a := by
  rw [Vm.userByte_eq, Vm.userByte_eq, h.leaf _ ha]
  by_cases hcond : a < MAXVA ∧ (leafAt x.kmem r (a / PGSIZE)).v = true ∧
      (leafAt x.kmem r (a / PGSIZE)).u = true
  · rw [if_pos hcond, if_pos hcond, h.bytes a ha hcond.2.1]
  · rw [if_neg hcond, if_neg hcond]

theorem Wrote.kept {a k n : Nat} {src : Nat -> UInt8} (h : Wrote x y r a k src)
    (hn : n <= USERTOP) (hle : n * PGSIZE <= a) : Kept x y r n := by
  refine ⟨fun v _ => by rw [h.kmem_eq], fun b hb hvalid => ?_⟩
  have hlt : b < n * PGSIZE := (Nat.div_lt_iff_lt_mul (by decide)).mp hb
  rw [h.bytes b ⟨by omega, hvalid⟩, if_neg (by omega)]

end

end Vm
end Xv6
