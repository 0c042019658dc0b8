import Mathlib.Data.List.Nodup
import Mathlib.Data.List.Perm.Basic
import Mathlib.Logic.Function.Iterate

/-!
# Circular doubly linked lists

A list with a sentinel, given by the `next` and `prev` pointers of its nodes.  A ring
is described by the list of nodes that `next` visits from the sentinel on.
-/

namespace Xv6
namespace Lib

open Function

structure Links (node : Type) where
  next : node -> node
  prev : node -> node

namespace Links

variable {node : Type}

variable {l : Links node} {xs ys : List node} {a b h x : node}

def flip (l : Links node) : Links node :=
  { next := l.prev, prev := l.next }

/-!
## Paths
-/

def Path (l : Links node) : node -> List node -> node -> Prop
  | a, [], b => l.next a = b ∧ l.prev b = a
  | a, x :: xs, b => l.next a = x ∧ l.prev x = a ∧ l.Path x xs b

theorem path_append :
    l.Path a (xs ++ x :: ys) b <-> l.Path a xs x ∧ l.Path x ys b := by
  induction xs generalizing a with
  | nil =>
    constructor
    · intro h
      exact ⟨⟨h.left, h.right.left⟩, h.right.right⟩
    · intro h
      exact ⟨h.left.left, h.left.right, h.right⟩
  | cons y xs ih =>
    constructor
    · intro h
      rcases ih.mp h.right.right with ⟨hl, hr⟩
      exact ⟨⟨h.left, h.right.left, hl⟩, hr⟩
    · intro h
      exact ⟨h.left.left, h.left.right.left, ih.mpr ⟨h.left.right.right, h.right⟩⟩

theorem Path.next_mem (h : l.Path a xs b) :
    l.next a ∈ xs ++ [b] := by
  cases xs with
  | nil => simp [h.left]
  | cons x xs => simp [h.left]

theorem Path.prev_mem (h : l.Path a xs b) :
    l.prev b ∈ a :: xs := by
  induction xs generalizing a with
  | nil => simp [h.right]
  | cons x xs ih => exact List.mem_cons_of_mem a (ih h.right.right)

theorem Path.congr {l' : Links node} (h : l.Path a xs b)
    (hnext : forall y, y ∈ a :: xs -> l'.next y = l.next y)
    (hprev : forall y, y ∈ xs ++ [b] -> l'.prev y = l.prev y) :
    l'.Path a xs b := by
  induction xs generalizing a with
  | nil =>
    exact ⟨(hnext a List.mem_cons_self).trans h.left,
      (hprev b List.mem_cons_self).trans h.right⟩
  | cons x xs ih =>
    refine ⟨(hnext a List.mem_cons_self).trans h.left,
      (hprev x List.mem_cons_self).trans h.right.left, ih h.right.right ?_ ?_⟩
    · intro y hy
      exact hnext y (List.mem_cons_of_mem a hy)
    · intro y hy
      exact hprev y (List.mem_cons_of_mem x hy)

theorem Path.flip (h : l.Path a xs b) :
    l.flip.Path b xs.reverse a := by
  induction xs generalizing a with
  | nil => exact ⟨h.right, h.left⟩
  | cons x xs ih =>
    rw [List.reverse_cons]
    exact path_append.mpr ⟨ih h.right.right, ⟨h.right.left, h.left⟩⟩

/-!
## Rings
-/

structure Ring (l : Links node) (h : node) (xs : List node) : Prop where
  nodup : (h :: xs).Nodup
  path : l.Path h xs h

theorem Ring.flip (hring : l.Ring h xs) :
    l.flip.Ring h xs.reverse :=
  { nodup := ((List.reverse_perm xs).cons h).nodup_iff.mpr hring.nodup
    path := hring.path.flip }

theorem Path.prev_next (h : l.Path a xs b)
    {y : node} (hy : y ∈ a :: xs) : l.prev (l.next y) = y := by
  induction xs generalizing a with
  | nil =>
    rw [List.mem_singleton.mp hy, h.left, h.right]
  | cons x xs ih =>
    rcases List.mem_cons.mp hy with heq | hrest
    · rw [heq, h.left, h.right.left]
    · exact ih h.right.right hrest

theorem Ring.prev_next {y : node} (hring : l.Ring h xs)
    (hy : y ∈ h :: xs) : l.prev (l.next y) = y ∧ l.next (l.prev y) = y := by
  refine ⟨hring.path.prev_next hy, hring.flip.path.prev_next ?_⟩
  rcases List.mem_cons.mp hy with heq | hmem
  · exact heq ▸ List.mem_cons_self
  · exact List.mem_cons_of_mem h (List.mem_reverse.mpr hmem)

theorem Path.iterate (h : l.Path a xs b) :
    (List.range xs.length).map (fun k => l.next^[k + 1] a) = xs ∧
      l.next^[xs.length + 1] a = b := by
  induction xs generalizing a with
  | nil => exact ⟨rfl, h.left⟩
  | cons x xs ih =>
    rcases ih h.right.right with ⟨hlist, hlast⟩
    have hshift : forall k, l.next^[k + 1] a = l.next^[k] x := by
      intro k
      rw [Function.iterate_succ_apply, h.left]
    constructor
    · rw [List.length_cons, List.range_succ_eq_map, List.map_cons, List.map_map, hshift 0]
      exact congrArg (x :: ·)
        ((List.map_congr_left (fun k _ => hshift (k + 1))).trans hlist)
    · rw [List.length_cons, hshift]
      exact hlast

/-!
## Pointer updates
-/

variable [DecidableEq node]

def setNext (l : Links node) (a b : node) : Links node :=
  { l with next := update l.next a b }

def setPrev (l : Links node) (a b : node) : Links node :=
  { l with prev := update l.prev a b }

def unlink (l : Links node) (x : node) : Links node :=
  let l := l.setPrev (l.next x) (l.prev x)
  l.setNext (l.prev x) (l.next x)

def insertAfter (l : Links node) (h x : node) : Links node :=
  let l := l.setNext x (l.next h)
  let l := l.setPrev x h
  let l := l.setPrev (l.next h) x
  l.setNext h x

theorem unlink_next (l : Links node) (x y : node) (hx : l.next x ≠ x) :
    (l.unlink x).next y = if y = l.prev x then l.next x else l.next y := by
  simp only [unlink, setNext, setPrev, update_apply, hx.symm, if_false]

theorem unlink_prev (l : Links node) (x y : node) :
    (l.unlink x).prev y = if y = l.next x then l.prev x else l.prev y := by
  simp only [unlink, setNext, setPrev, update_apply]

theorem Path.unlink (hleft : l.Path a xs x) (hright : l.Path x ys b)
    (hfrom : (a :: (xs ++ x :: ys)).Nodup) (hto : (xs ++ x :: (ys ++ [b])).Nodup) :
    (l.unlink x).Path a (xs ++ ys) b := by
  have hmem := hright.next_mem
  have hx : l.next x ≠ x := by
    intro heq
    rw [heq] at hmem
    exact (List.nodup_cons.mp hto.of_append_right).left hmem
  induction xs generalizing a with
  | nil =>
    rcases hleft with ⟨_, hprev⟩
    cases ys with
    | nil =>
      rcases hright with ⟨hb, _⟩
      refine ⟨?_, ?_⟩
      · rw [unlink_next l x a hx, if_pos hprev.symm, hb]
      · rw [unlink_prev, if_pos hb.symm, hprev]
    | cons y ys =>
      rcases hright with ⟨hy, _, hrest⟩
      refine ⟨?_, ?_, hrest.congr ?_ ?_⟩
      · rw [unlink_next l x a hx, if_pos hprev.symm, hy]
      · rw [unlink_prev, if_pos hy.symm, hprev]
      · intro z hz
        rw [unlink_next l x z hx, if_neg]
        intro heq
        rw [heq, hprev] at hz
        exact (List.nodup_cons.mp hfrom).left (List.mem_cons_of_mem x hz)
      · intro z hz
        rw [unlink_prev, if_neg]
        intro heq
        rw [heq, hy] at hz
        exact (List.nodup_cons.mp (List.nodup_cons.mp hto).right).left hz
  | cons c xs ih =>
    rcases hleft with ⟨hc, hca, hrest⟩
    have hprev := hrest.prev_mem
    refine ⟨?_, ?_, ih hrest (List.nodup_cons.mp hfrom).right (List.nodup_cons.mp hto).right⟩
    · rw [unlink_next l x a hx, if_neg, hc]
      intro heq
      rw [← heq] at hprev
      exact (List.nodup_cons.mp hfrom).left (List.mem_append_left (x :: ys) hprev)
    · rw [unlink_prev, if_neg, hca]
      intro heq
      rw [← heq] at hmem
      exact (List.nodup_cons.mp hto).left
        (List.mem_append_right xs (List.mem_cons_of_mem x hmem))

theorem Ring.unlink (hring : l.Ring h (xs ++ x :: ys)) : (l.unlink x).Ring h (xs ++ ys) := by
  rcases path_append.mp hring.path with ⟨hleft, hright⟩
  have hto : (xs ++ x :: (ys ++ [h])).Nodup := by
    have hperm : (h :: (xs ++ x :: ys)).Perm (xs ++ x :: (ys ++ [h])) := by
      have hlast := (List.perm_append_singleton h (xs ++ x :: ys)).symm
      rwa [List.append_assoc] at hlast
    exact hperm.nodup_iff.mp hring.nodup
  refine { nodup := ?_, path := hleft.unlink hright hring.nodup hto }
  exact hring.nodup.sublist ((List.sublist_cons_self x ys).append_left xs |>.cons_cons h)

theorem insertAfter_next (l : Links node) (h x y : node) :
    (l.insertAfter h x).next y = if y = h then x else if y = x then l.next h else l.next y := by
  simp only [insertAfter, setNext, setPrev, update_apply]

theorem insertAfter_prev (l : Links node) (y : node) (hx : x ≠ h) :
    (l.insertAfter h x).prev y =
      if y = l.next h then x else if y = x then h else l.prev y := by
  simp only [insertAfter, setNext, setPrev, update_apply, hx.symm, if_false]

theorem Ring.insertAfter
    (hring : l.Ring h xs) (hx : x ∉ h :: xs) : (l.insertAfter h x).Ring h (x :: xs) := by
  have hne : x ≠ h := fun heq => hx (heq ▸ List.mem_cons_self)
  have hnodup := hring.nodup
  refine { nodup := ?_, path := ⟨?_, ?_, ?_⟩ }
  · exact (List.Perm.swap h x xs).nodup_iff.mp (List.nodup_cons.mpr ⟨hx, hnodup⟩)
  · rw [insertAfter_next, if_pos rfl]
  · rw [insertAfter_prev l x hne, if_neg, if_pos rfl]
    intro heq
    have hmem := hring.path.next_mem
    rw [← heq] at hmem
    exact hx ((List.perm_append_singleton h xs).mem_iff.mp hmem)
  · cases xs with
    | nil =>
      rcases hring.path with ⟨hnext, _⟩
      exact ⟨by rw [insertAfter_next, if_neg hne, if_pos rfl, hnext],
        by rw [insertAfter_prev l h hne, if_pos hnext.symm]⟩
    | cons y ys =>
      rcases hring.path with ⟨hnext, _, hrest⟩
      have hy := List.nodup_cons.mp hnodup
      refine ⟨?_, ?_, hrest.congr ?_ ?_⟩
      · rw [insertAfter_next, if_neg hne, if_pos rfl, hnext]
      · rw [insertAfter_prev l y hne, if_pos hnext.symm]
      · intro z hz
        rw [insertAfter_next, if_neg, if_neg]
        · intro heq
          rw [heq] at hz
          exact hx (List.mem_cons_of_mem h hz)
        · intro heq
          rw [heq] at hz
          exact hy.left hz
      · intro z hz
        have hz' := (List.perm_append_singleton h ys).mem_iff.mp hz
        rw [insertAfter_prev l z hne, if_neg, if_neg]
        · intro heq
          rw [heq] at hz'
          rcases List.mem_cons.mp hz' with hzh | hzys
          · exact hne hzh
          · exact hx (List.mem_cons_of_mem h (List.mem_cons_of_mem y hzys))
        · intro heq
          rw [heq, hnext] at hz'
          rcases List.mem_cons.mp hz' with hyh | hyys
          · exact hy.left (hyh ▸ List.mem_cons_self)
          · exact (List.nodup_cons.mp hy.right).left hyys

/-!
## Following the pointers
-/

/-- The loop that starts at `b`, moves on by `succ` and ends at `h`: the first node
that satisfies `p`. -/
def scan (succ : node -> node) (h : node) (p : node -> Bool) : Nat -> node -> Option node
  | 0, _ => none
  | n + 1, b =>
    if b = h then
      none
    else if p b then
      some b
    else
      scan succ h p n (succ b)

theorem Path.scan (hpath : l.Path a xs h)
    (hxs : h ∉ xs) (p : node -> Bool) {n : Nat} (hn : xs.length < n) :
    Links.scan l.next h p n (l.next a) = xs.find? p := by
  induction xs generalizing a n with
  | nil =>
    cases n with
    | zero => exact absurd hn (Nat.not_lt_zero _)
    | succ n =>
      rw [hpath.left, Links.scan, if_pos rfl]
      rfl
  | cons x xs ih =>
    cases n with
    | zero => exact absurd hn (Nat.not_lt_zero _)
    | succ n =>
      have hne : x ≠ h := fun heq => hxs (heq ▸ List.mem_cons_self)
      rw [hpath.left, Links.scan, if_neg hne, List.find?_cons]
      cases p x with
      | true => rfl
      | false =>
        exact ih hpath.right.right (fun hmem => hxs (List.mem_cons_of_mem x hmem))
          (Nat.lt_of_succ_lt_succ hn)

theorem Ring.scan_next (hring : l.Ring h xs) (p : node -> Bool) {n : Nat} (hn : xs.length < n) :
    Links.scan l.next h p n (l.next h) = xs.find? p :=
  hring.path.scan (List.nodup_cons.mp hring.nodup).left p hn

theorem Ring.scan_prev (hring : l.Ring h xs) (p : node -> Bool) {n : Nat} (hn : xs.length < n) :
    Links.scan l.prev h p n (l.prev h) = xs.reverse.find? p :=
  hring.flip.scan_next p (by rwa [List.length_reverse])

end Links
end Lib
end Xv6
