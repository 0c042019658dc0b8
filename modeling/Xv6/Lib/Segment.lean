import Mathlib.Data.List.Basic

/-!
# Strings in a memory

A memory holds a list from an address on.  A string is read up to a mark, and searched
for a character up to the mark.
-/

namespace Xv6
namespace Lib

variable {α : Type}

def Holds (mem : Nat -> α) (a : Nat) (l : List α) : Prop :=
  forall i, i < l.length -> some (mem (a + i)) = l[i]?

section

variable {mem mem' : Nat -> α} {a : Nat} {c : α} {l r : List α}

theorem Holds.nil : Holds mem a [] :=
  fun _ hi => absurd hi (Nat.not_lt_zero _)

theorem holds_cons : Holds mem a (c :: l) <-> mem a = c ∧ Holds mem (a + 1) l := by
  constructor
  · intro h
    constructor
    · exact Option.some.inj (h 0 (Nat.zero_lt_succ _))
    · intro i hi
      have hcell := h (i + 1) (Nat.succ_lt_succ hi)
      rw [List.getElem?_cons_succ] at hcell
      rw [Nat.add_assoc, Nat.add_comm 1]
      exact hcell
  · rintro ⟨hc, hl⟩ i hi
    cases i with
    | zero => exact congrArg some hc
    | succ i =>
      rw [List.getElem?_cons_succ, Nat.add_comm i, ← Nat.add_assoc]
      exact hl i (Nat.lt_of_succ_lt_succ hi)

theorem holds_append :
    Holds mem a (l ++ r) <-> Holds mem a l ∧ Holds mem (a + l.length) r := by
  induction l generalizing a with
  | nil => exact ⟨fun h => ⟨Holds.nil, h⟩, fun h => h.2⟩
  | cons c l ih =>
    rw [List.cons_append, holds_cons, holds_cons, ih, List.length_cons, Nat.add_assoc,
      Nat.add_comm 1, and_assoc]

theorem Holds.drop (h : Holds mem a l) {n : Nat} (hn : n <= l.length) :
    Holds mem (a + n) (l.drop n) := by
  rw [← List.take_append_drop n l, holds_append, List.length_take, Nat.min_eq_left hn] at h
  exact h.2

theorem Holds.congr (h : Holds mem a l)
    (hsame : forall i, i < l.length -> mem' (a + i) = mem (a + i)) : Holds mem' a l := by
  intro i hi
  rw [hsame i hi]
  exact h i hi

theorem Holds.map_range (h : Holds mem a l) :
    (List.range l.length).map (fun i => mem (a + i)) = l := by
  apply List.ext_getElem?
  intro i
  rw [List.getElem?_map]
  by_cases hi : i < l.length
  · rw [List.getElem?_range hi, Option.map_some, h i hi]
  · rw [List.getElem?_eq_none (Nat.le_of_not_lt hi), List.getElem?_eq_none (by simpa using hi)]
    rfl

end

section

variable [DecidableEq α] (nul : α) (mem : Nat -> α)

/-- The string at an address; `none` when `fuel` cells do not hold the mark. -/
def cstr : Nat -> Nat -> Option (List α)
  | 0, _ => none
  | fuel + 1, a => if mem a = nul then some [] else (cstr fuel (a + 1)).map (mem a :: ·)

def strchr (c : α) : Nat -> Nat -> Option (Option Nat)
  | 0, _ => none
  | fuel + 1, s =>
    if mem s = nul then some none
    else if mem s = c then some (some s)
    else strchr c fuel (s + 1)

variable {nul mem} {a fuel : Nat} {l : List α}

theorem cstr_eq (h : Holds mem a (l ++ [nul])) (hnul : nul ∉ l) (hfuel : l.length < fuel) :
    cstr nul mem fuel a = some l := by
  induction l generalizing a fuel with
  | nil =>
    cases fuel with
    | zero => exact absurd hfuel (Nat.not_lt_zero _)
    | succ fuel => exact if_pos (holds_cons.mp h).1
  | cons c l ih =>
    cases fuel with
    | zero => exact absurd hfuel (Nat.not_lt_zero _)
    | succ fuel =>
      obtain ⟨hc, hl⟩ := holds_cons.mp h
      have hne := List.ne_of_not_mem_cons hnul
      unfold cstr
      rw [if_neg (fun hz => hne (hz.symm.trans hc)),
        ih hl (List.not_mem_of_not_mem_cons hnul) (Nat.lt_of_succ_lt_succ hfuel), hc]
      rfl

theorem cstr_length_ge (h : Holds mem a l) (hnul : nul ∉ l) {s : List α}
    (hs : cstr nul mem fuel a = some s) : l.length <= s.length := by
  induction l generalizing a fuel s with
  | nil => exact Nat.zero_le _
  | cons c l ih =>
    cases fuel with
    | zero => cases hs
    | succ fuel =>
      obtain ⟨hc, hl⟩ := holds_cons.mp h
      have hne := List.ne_of_not_mem_cons hnul
      unfold cstr at hs
      rw [if_neg (fun hz => hne (hz.symm.trans hc))] at hs
      obtain ⟨rest, hrest, rfl⟩ := Option.map_eq_some_iff.mp hs
      exact Nat.succ_le_succ (ih hl (List.not_mem_of_not_mem_cons hnul) hrest)

theorem strchr_skip {c : α} {k : Nat} (h : Holds mem a l) (hnul : nul ∉ l)
    (hc : c ∉ l) : strchr nul mem c (l.length + k) a = strchr nul mem c k (a + l.length) := by
  induction l generalizing a with
  | nil => rw [List.length_nil, Nat.zero_add, Nat.add_zero]
  | cons d l ih =>
    obtain ⟨hd, hl⟩ := holds_cons.mp h
    have hnd := List.ne_of_not_mem_cons hnul
    have hcd := List.ne_of_not_mem_cons hc
    rw [List.length_cons, Nat.add_right_comm]
    conv => lhs; unfold strchr
    rw [if_neg (fun hz => hnd (hz.symm.trans hd)), if_neg (fun hz => hcd (hz.symm.trans hd)),
      ih hl (List.not_mem_of_not_mem_cons hnul) (List.not_mem_of_not_mem_cons hc), Nat.add_assoc,
      Nat.add_comm 1]

end

end Lib
end Xv6
