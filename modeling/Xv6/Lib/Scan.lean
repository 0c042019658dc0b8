import Mathlib.Data.List.TakeWhile

/-!
# Reading up to a mark

A memory that is only partly there is read from an address on until a mark is found, a
cell is missing, or a given number of cells has been read.
-/

namespace Xv6
namespace Lib

variable {α : Type} [DecidableEq α]

def scan (f : Nat -> Option α) (mark : α) : Nat -> Nat -> Bool × List α
  | _, 0 => (false, [])
  | a, n + 1 =>
    match f a with
    | none => (false, [])
    | some c =>
      if c = mark then
        (true, [c])
      else
        ((scan f mark (a + 1) n).1, c :: (scan f mark (a + 1) n).2)

structure Terminated (f : Nat -> Option α) (mark : α) (a k : Nat) : Prop where
  before : forall i, i < k -> exists c, f (a + i) = some c ∧ c ≠ mark
  mark : f (a + k) = some mark

section

variable {f g : Nat -> Option α} {mark : α} {a n : Nat}

theorem scan_none (h : f a = none) : scan f mark a n = (false, []) := by
  cases n with
  | zero => rfl
  | succ n =>
    unfold scan
    rw [h]

theorem scan_mark (h : f a = some mark) : scan f mark a (n + 1) = (true, [mark]) := by
  unfold scan
  rw [h]
  exact if_pos rfl

theorem scan_cell {c : α} (h : f a = some c) (hne : c ≠ mark) :
    scan f mark a (n + 1) =
      ((scan f mark (a + 1) n).1, c :: (scan f mark (a + 1) n).2) := by
  conv => lhs; unfold scan
  rw [h]
  exact if_neg hne

theorem scan_length_le (f : Nat -> Option α) (mark : α) (a n : Nat) :
    (scan f mark a n).2.length <= n := by
  induction n generalizing a with
  | zero => exact Nat.le_refl _
  | succ n ih =>
    cases h : f a with
    | none =>
      rw [scan_none h]
      exact Nat.zero_le _
    | some c =>
      rcases eq_or_ne c mark with rfl | hne
      · rw [scan_mark h]
        exact Nat.succ_le_succ (Nat.zero_le n)
      · rw [scan_cell h hne]
        exact Nat.succ_le_succ (ih (a + 1))

theorem scan_append {cells : List α} (hcells : forall i, i < cells.length -> f (a + i) = cells[i]?)
    (hmark : mark ∉ cells) :
    scan f mark a (cells.length + n) =
      ((scan f mark (a + cells.length) n).1, cells ++ (scan f mark (a + cells.length) n).2) := by
  induction cells generalizing a with
  | nil =>
    rw [List.length_nil, Nat.zero_add]
    rfl
  | cons c rest ih =>
    have hhead : f a = some c := hcells 0 (Nat.succ_pos _)
    have hrest : forall i, i < rest.length -> f (a + 1 + i) = rest[i]? := by
      intro i hi
      have hcell := hcells (i + 1) (Nat.succ_lt_succ hi)
      rw [List.getElem?_cons_succ] at hcell
      rw [← hcell]
      exact congrArg f (by omega)
    rw [List.mem_cons, not_or] at hmark
    rw [List.length_cons, Nat.add_right_comm, scan_cell hhead (Ne.symm hmark.1),
      ih hrest hmark.2, Nat.add_assoc, Nat.add_comm 1]
    rfl

theorem scan_found {cells : List α} (hcells : forall i, i < cells.length -> f (a + i) = cells[i]?)
    (hmark : mark ∈ cells) (hn : cells.length <= n) :
    scan f mark a n = (true, cells.takeWhile (· ≠ mark) ++ [mark]) := by
  induction cells generalizing a n with
  | nil => cases hmark
  | cons c rest ih =>
    have hhead : f a = some c := hcells 0 (Nat.succ_pos _)
    rw [List.length_cons] at hn
    rcases Nat.exists_eq_add_of_le' (Nat.le_trans (Nat.succ_pos _) hn) with ⟨n, rfl⟩
    rcases eq_or_ne c mark with rfl | hne
    · rw [scan_mark hhead, List.takeWhile_cons_of_neg (by simp)]
      rfl
    · have hrest : forall i, i < rest.length -> f (a + 1 + i) = rest[i]? := by
        intro i hi
        have hcell := hcells (i + 1) (Nat.succ_lt_succ hi)
        rw [List.getElem?_cons_succ] at hcell
        rw [← hcell]
        exact congrArg f (by omega)
      have htail : mark ∈ rest := by
        rcases List.mem_cons.mp hmark with heq | htail
        · exact absurd heq.symm hne
        · exact htail
      rw [scan_cell hhead hne, ih hrest htail (by omega),
        List.takeWhile_cons_of_pos (by simpa using hne)]
      rfl

variable {k : Nat}

omit [DecidableEq α] in
theorem Terminated.tail (h : Terminated f mark a (k + 1)) :
    Terminated f mark (a + 1) k := by
  refine ⟨?_, ?_⟩
  · intro i hi
    rw [Nat.add_assoc, Nat.add_comm 1]
    exact h.before (i + 1) (Nat.succ_lt_succ hi)
  · rw [Nat.add_assoc, Nat.add_comm 1]
    exact h.mark

theorem Terminated.exists_of_mark (hk : k < n) (hmark : f (a + k) = some mark)
    (hcells : forall j, j < n -> (forall i, i < j -> f (a + i) ≠ some mark) -> f (a + j) ≠ none) :
    exists j, j < n ∧ Terminated f mark a j := by
  induction k using Nat.strong_induction_on with
  | _ k ih =>
    by_cases hfirst : exists j, j < k ∧ f (a + j) = some mark
    · rcases hfirst with ⟨j, hj, hmark⟩
      exact ih j hj (Nat.lt_trans hj hk) hmark
    · refine ⟨k, hk, ?_, hmark⟩
      intro i hi
      have hsome := hcells i (Nat.lt_trans hi hk) fun j hj hmark =>
        hfirst ⟨j, Nat.lt_trans hj hi, hmark⟩
      rcases Option.ne_none_iff_exists'.mp hsome with ⟨c, hc⟩
      refine ⟨c, hc, ?_⟩
      rintro rfl
      exact hfirst ⟨i, hi, hc⟩

theorem Terminated.scan (h : Terminated f mark a k) (hk : k < n) :
    (scan f mark a n).1 = true ∧
      (scan f mark a n).2.map some = (List.range (k + 1)).map fun i => f (a + i) := by
  induction k generalizing a n with
  | zero =>
    rcases Nat.exists_eq_add_of_le' hk with ⟨n, rfl⟩
    have hmark : f a = some mark := h.mark
    rw [scan_mark hmark]
    refine ⟨rfl, ?_⟩
    change [some mark] = [f (a + 0)]
    rw [h.mark]
  | succ k ih =>
    rcases Nat.exists_eq_add_of_le' (Nat.le_trans (Nat.succ_pos _) hk) with ⟨n, rfl⟩
    rcases h.before 0 (Nat.succ_pos k) with ⟨c, hc, hne⟩
    have hrest := ih h.tail (by omega : k < n)
    have hhead : f a = some c := hc
    rw [scan_cell hhead hne]
    refine ⟨hrest.1, ?_⟩
    have hlist : (List.range (k + 1 + 1)).map (fun i => f (a + i)) =
        f a :: (List.range (k + 1)).map fun i => f (a + 1 + i) := by
      rw [List.range_succ_eq_map, List.map_cons, List.map_map]
      refine congrArg _ (List.map_congr_left fun i _ => congrArg f ?_)
      change a + (i + 1) = a + 1 + i
      omega
    rw [List.map_cons, hrest.2, hlist, hhead]

theorem Terminated.length_takeWhile (h : Terminated f mark a k) (hk : k < n) :
    ((Lib.scan f mark a n).2.takeWhile (· ≠ mark)).length = k := by
  induction k generalizing a n with
  | zero =>
    rcases Nat.exists_eq_add_of_le' hk with ⟨n, rfl⟩
    have hmark : f a = some mark := h.mark
    rw [scan_mark hmark, List.takeWhile_cons_of_neg (by simp)]
    rfl
  | succ k ih =>
    rcases Nat.exists_eq_add_of_le' (Nat.le_trans (Nat.succ_pos _) hk) with ⟨n, rfl⟩
    rcases h.before 0 (Nat.succ_pos k) with ⟨c, hc, hne⟩
    have hhead : f a = some c := hc
    rw [scan_cell hhead hne, List.takeWhile_cons_of_pos (by simpa using hne), List.length_cons,
      ih h.tail (by omega)]

theorem scan_true_iff : (scan f mark a n).1 = true <-> exists k, k < n ∧ Terminated f mark a k := by
  constructor
  · intro hfound
    induction n generalizing a with
    | zero => cases hfound
    | succ n ih =>
      cases hcell : f a with
      | none =>
        rw [scan_none hcell] at hfound
        cases hfound
      | some c =>
        rcases eq_or_ne c mark with rfl | hne
        · exact ⟨0, Nat.succ_pos n, fun i hi => absurd hi (Nat.not_lt_zero i), hcell⟩
        · rw [scan_cell hcell hne] at hfound
          rcases ih hfound with ⟨k, hk, hrest⟩
          refine ⟨k + 1, Nat.succ_lt_succ hk, ?_, ?_⟩
          · intro i hi
            cases i with
            | zero => exact ⟨c, hcell, hne⟩
            | succ i =>
              rw [Nat.add_comm i, ← Nat.add_assoc]
              exact hrest.before i (Nat.lt_of_succ_lt_succ hi)
          · rw [Nat.add_comm k, ← Nat.add_assoc]
            exact hrest.mark
  · rintro ⟨k, hk, h⟩
    exact (h.scan hk).1

theorem scan_missing (hbefore : forall i, i < k -> f (a + i) ≠ some mark)
    (hnone : f (a + k) = none) : (scan f mark a n).1 = false := by
  by_contra hfound
  rcases scan_true_iff.mp ((Bool.not_eq_false _).mp hfound) with ⟨j, _, h⟩
  rcases Nat.lt_trichotomy j k with hlt | rfl | hgt
  · exact hbefore j hlt h.mark
  · rw [h.mark] at hnone
    cases hnone
  · rcases h.before k hgt with ⟨c, hc, _⟩
    rw [hnone] at hc
    cases hc

theorem scan_congr (h : forall k, k < n ->
      (forall i, i < k -> exists c, f (a + i) = some c ∧ c ≠ mark) -> f (a + k) = g (a + k)) :
    scan f mark a n = scan g mark a n := by
  induction n generalizing a with
  | zero => rfl
  | succ n ih =>
    have hhead : f a = g a := h 0 (Nat.succ_pos n) fun i hi => absurd hi (Nat.not_lt_zero i)
    cases hcell : f a with
    | none => rw [scan_none hcell, scan_none (hhead ▸ hcell)]
    | some c =>
      rcases eq_or_ne c mark with rfl | hne
      · rw [scan_mark hcell, scan_mark (hhead ▸ hcell)]
      · have hrest : scan f mark (a + 1) n = scan g mark (a + 1) n := by
          refine ih ?_
          intro k hk hbefore
          rw [Nat.add_assoc, Nat.add_comm 1]
          refine h (k + 1) (Nat.succ_lt_succ hk) ?_
          intro i hi
          cases i with
          | zero => exact ⟨c, hcell, hne⟩
          | succ i =>
            have hcell := hbefore i (Nat.lt_of_succ_lt_succ hi)
            rw [Nat.add_assoc, Nat.add_comm 1] at hcell
            exact hcell
        rw [scan_cell hcell hne, scan_cell (hhead ▸ hcell) hne, hrest]

end

end Lib
end Xv6
