import Xv6.User.Ulib
import Mathlib.Data.BitVec

/-!
# `memmove` of the kernel and of the user library

The kernel copies down only when the destination begins inside the source, and its length
is a `uint`.  The user library copies up only when the source is above the destination,
and its length is an `int`.  Addresses are machine words.
-/

namespace Xv6
namespace Memmove

open Function

abbrev Addr := BitVec 64

variable {α : Type}

def copyUp : Nat -> Addr -> Addr -> (Addr -> α) -> Addr -> α
  | 0, _, _, mem => mem
  | n + 1, d, s, mem => copyUp n (d + 1) (s + 1) (update mem d (mem s))

def copyDown : Nat -> Addr -> Addr -> (Addr -> α) -> Addr -> α
  | 0, _, _, mem => mem
  | n + 1, d, s, mem => copyDown n (d - 1) (s - 1) (update mem (d - 1) (mem (s - 1)))

/-- `memmove` of `kernel/string.c`: the destination and the memory after the call. -/
def Kernel.memmove (mem : Addr -> α) (dst src : Addr) (n : BitVec 32) : Addr × (Addr -> α) :=
  if n = 0 then
    (dst, mem)
  else if src < dst ∧ dst < src + n.setWidth 64 then
    (dst, copyDown n.toNat (dst + n.setWidth 64) (src + n.setWidth 64) mem)
  else
    (dst, copyUp n.toNat dst src mem)

def Ulib.memmove (mem : Addr -> α) (dst src : Addr) (n : BitVec 32) : Addr × (Addr -> α) :=
  if dst < src then
    (dst, copyUp n.toInt.toNat dst src mem)
  else
    (dst, copyDown n.toInt.toNat (dst + n.signExtend 64) (src + n.signExtend 64) mem)

/-- The `n` bytes at `dst` are those that were at `src`, and no other byte has changed. -/
def Copied (mem mem' : Addr -> α) (dst src : Addr) (n : Nat) : Prop :=
  (forall i, i < n -> mem' (dst + BitVec.ofNat 64 i) = mem (src + BitVec.ofNat 64 i)) ∧
    forall a, (forall i, i < n -> a ≠ dst + BitVec.ofNat 64 i) -> mem' a = mem a

/-!
## Addresses that do not wrap

As long as no address wraps, the loops are those over natural numbers.
-/

theorem toNat_injective : Injective (BitVec.toNat : Addr -> Nat) :=
  fun _ _ => BitVec.eq_of_toNat_eq

theorem toNat_add_ofNat {a : Addr} {i : Nat} (h : a.toNat + i < 2 ^ 64) :
    (a + BitVec.ofNat 64 i).toNat = a.toNat + i := by
  rw [BitVec.toNat_add, BitVec.toNat_ofNat, Nat.mod_eq_of_lt (by omega : i < 2 ^ 64),
    Nat.mod_eq_of_lt h]

theorem toNat_pred {a : Addr} (h : 0 < a.toNat) : (a - 1).toNat = a.toNat - 1 := by
  bv_omega

theorem copyUp_eq {n : Nat} {d s : Addr} (g : Nat -> α) (hd : d.toNat + n < 2 ^ 64)
    (hs : s.toNat + n < 2 ^ 64) :
    copyUp n d s (g ∘ BitVec.toNat) = User.moveUp n d.toNat s.toNat g ∘ BitVec.toNat := by
  induction n generalizing d s g with
  | zero => rfl
  | succ n ih =>
    have hd1 : (d + 1).toNat = d.toNat + 1 := toNat_add_ofNat (i := 1) (by omega)
    have hs1 : (s + 1).toNat = s.toNat + 1 := toNat_add_ofNat (i := 1) (by omega)
    rw [copyUp, ← update_comp_eq_of_injective g toNat_injective, ih _ (by omega) (by omega),
      hd1, hs1]
    rfl

theorem copyDown_eq {n : Nat} {d s : Addr} (g : Nat -> α) (hd : n <= d.toNat) (hs : n <= s.toNat) :
    copyDown n d s (g ∘ BitVec.toNat) = User.moveDown n d.toNat s.toNat g ∘ BitVec.toNat := by
  induction n generalizing d s g with
  | zero => rfl
  | succ n ih =>
    have hd1 := toNat_pred (a := d) (by omega)
    have hs1 := toNat_pred (a := s) (by omega)
    rw [copyDown, ← update_comp_eq_of_injective g toNat_injective, ih _ (by omega) (by omega),
      comp_apply, hd1, hs1]
    rfl

theorem copied_of_apply {mem : Addr -> α} {g : Nat -> α} {dst src : Addr} {n : Nat}
    (hdst : dst.toNat + n < 2 ^ 64) (hsrc : src.toNat + n < 2 ^ 64)
    (h : forall a, g a = if dst.toNat <= a ∧ a < dst.toNat + n
      then mem (BitVec.ofNat 64 (src.toNat + (a - dst.toNat))) else mem (BitVec.ofNat 64 a)) :
    Copied mem (g ∘ BitVec.toNat) dst src n := by
  constructor
  · intro i hi
    rw [comp_apply, toNat_add_ofNat (by omega), h, if_pos (by omega), Nat.add_sub_cancel_left,
      ← toNat_add_ofNat (by omega), BitVec.ofNat_toNat, BitVec.setWidth_eq]
  · intro a ha
    have hout : ¬ (dst.toNat <= a.toNat ∧ a.toNat < dst.toNat + n) := by
      rintro ⟨hle, hlt⟩
      refine ha (a.toNat - dst.toNat) (by omega) (BitVec.eq_of_toNat_eq ?_)
      rw [toNat_add_ofNat (by omega)]
      omega
    rw [comp_apply, h, if_neg hout, BitVec.ofNat_toNat, BitVec.setWidth_eq]

theorem mem_eq_comp (mem : Addr -> α) :
    mem = (fun a => mem (BitVec.ofNat 64 a)) ∘ BitVec.toNat := by
  funext a
  rw [comp_apply, BitVec.ofNat_toNat, BitVec.setWidth_eq]

section

variable {mem : Addr -> α} {dst src : Addr} {n : Nat}

theorem copyUp_copied (hdst : dst.toNat + n < 2 ^ 64) (hsrc : src.toNat + n < 2 ^ 64)
    (h : dst.toNat <= src.toNat ∨ src.toNat + n <= dst.toNat) :
    Copied mem (copyUp n dst src mem) dst src n := by
  have hloop := copyUp_eq (fun a => mem (BitVec.ofNat 64 a)) hdst hsrc
  rw [← mem_eq_comp] at hloop
  rw [hloop]
  exact copied_of_apply hdst hsrc fun a => User.moveUp_apply h

theorem copyDown_copied (hdst : dst.toNat + n < 2 ^ 64) (hsrc : src.toNat + n < 2 ^ 64)
    (h : src.toNat <= dst.toNat) :
    Copied mem (copyDown n (dst + BitVec.ofNat 64 n) (src + BitVec.ofNat 64 n) mem) dst src n := by
  have hd := toNat_add_ofNat hdst
  have hs := toNat_add_ofNat hsrc
  have hloop := copyDown_eq (fun a => mem (BitVec.ofNat 64 a))
    (by omega : n <= (dst + BitVec.ofNat 64 n).toNat)
    (by omega : n <= (src + BitVec.ofNat 64 n).toNat)
  rw [← mem_eq_comp] at hloop
  rw [hloop, hd, hs]
  exact copied_of_apply hdst hsrc fun a => User.moveDown_apply h

theorem Copied.unique {mem1 mem2 : Addr -> α} (h1 : Copied mem mem1 dst src n)
    (h2 : Copied mem mem2 dst src n) : mem1 = mem2 := by
  funext a
  by_cases hin : exists i, i < n ∧ a = dst + BitVec.ofNat 64 i
  · rcases hin with ⟨i, hi, rfl⟩
    rw [h1.1 i hi, h2.1 i hi]
  · have hout : forall i, i < n -> a ≠ dst + BitVec.ofNat 64 i := fun i hi heq => hin ⟨i, hi, heq⟩
    rw [h1.2 a hout, h2.2 a hout]

end

/-!
## Both functions
-/

section

variable {dst src : Addr} {n : BitVec 32}

theorem kernel_memmove_copied (mem : Addr -> α) (hdst : dst.toNat + n.toNat < 2 ^ 64)
    (hsrc : src.toNat + n.toNat < 2 ^ 64) :
    (Kernel.memmove mem dst src n).1 = dst ∧
      Copied mem (Kernel.memmove mem dst src n).2 dst src n.toNat := by
  have hwidth : n.setWidth 64 = BitVec.ofNat 64 n.toNat := (BitVec.ofNat_toNat 64 n).symm
  have hend := toNat_add_ofNat hsrc
  unfold Kernel.memmove
  rw [hwidth]
  by_cases hzero : n = 0
  · rw [if_pos hzero, hzero]
    exact ⟨rfl, fun i hi => absurd hi (Nat.not_lt_zero i), fun _ _ => rfl⟩
  · rw [if_neg hzero]
    by_cases hover : src < dst ∧ dst < src + BitVec.ofNat 64 n.toNat
    · rw [if_pos hover]
      exact ⟨rfl, copyDown_copied hdst hsrc (Nat.le_of_lt hover.1)⟩
    · rw [if_neg hover]
      refine ⟨rfl, copyUp_copied hdst hsrc ?_⟩
      rw [BitVec.lt_def, BitVec.lt_def, hend] at hover
      omega

theorem ulib_memmove_copied (mem : Addr -> α) (hdst : dst.toNat + n.toNat < 2 ^ 64)
    (hsrc : src.toNat + n.toNat < 2 ^ 64) (hn : 0 <= n.toInt) :
    (Ulib.memmove mem dst src n).1 = dst ∧
      Copied mem (Ulib.memmove mem dst src n).2 dst src n.toNat := by
  have hmsb : n.msb = false := by
    rw [BitVec.msb_eq_toInt]
    exact decide_eq_false (Int.not_lt.mpr hn)
  have hwidth : n.signExtend 64 = BitVec.ofNat 64 n.toNat := by
    rw [BitVec.signExtend_eq_setWidth_of_msb_false hmsb, BitVec.ofNat_toNat]
  have hcount : n.toInt.toNat = n.toNat := by
    rw [BitVec.toInt_eq_toNat_of_msb hmsb, Int.toNat_natCast]
  unfold Ulib.memmove
  rw [hwidth, hcount]
  by_cases hup : dst < src
  · rw [if_pos hup]
    exact ⟨rfl, copyUp_copied hdst hsrc (Or.inl (Nat.le_of_lt hup))⟩
  · rw [if_neg hup]
    exact ⟨rfl, copyDown_copied hdst hsrc (Nat.le_of_not_lt hup)⟩

/-- Both functions copy simultaneously, so they agree. -/
theorem memmove_simultaneous (mem : Addr -> α) (dst src : Addr) (n : BitVec 32)
    (hdst : dst.toNat + n.toNat < 2 ^ 64) (hsrc : src.toNat + n.toNat < 2 ^ 64) :
    Copied mem (Kernel.memmove mem dst src n).2 dst src n.toNat ∧
      (0 <= n.toInt -> Copied mem (Ulib.memmove mem dst src n).2 dst src n.toNat ∧
        Ulib.memmove mem dst src n = Kernel.memmove mem dst src n) := by
  obtain ⟨hret, hkernel⟩ := kernel_memmove_copied mem hdst hsrc
  refine ⟨hkernel, fun hn => ?_⟩
  obtain ⟨hret', hulib⟩ := ulib_memmove_copied mem hdst hsrc hn
  exact ⟨hulib, Prod.ext (hret'.trans hret.symm) (hulib.unique hkernel)⟩

theorem memmove_simultaneous_overlap :
    Copied id (Kernel.memmove id 14 10 8).2 14 10 8 ∧
      (0 <= (8 : BitVec 32).toInt -> Copied id (Ulib.memmove id 14 10 8).2 14 10 8 ∧
        Ulib.memmove id 14 10 8 = Kernel.memmove id 14 10 8) :=
  memmove_simultaneous id 14 10 8 (by decide) (by decide)

end

end Memmove
end Xv6
