import Mathlib.Computability.Language

/-!
# The matcher of `grep`

A C string is the list of its characters, and its NUL is the end of the list.  The
language of a pattern is built with the operations on languages.
-/

namespace Xv6
namespace User

/-- The loop of `matchstar`; `here` is `matchhere` of the rest of the pattern. -/
def matchstar (c : Char) (here : List Char -> Bool) : List Char -> Bool
  | [] => here []
  | t :: text =>
    here (t :: text) || ((decide (t = c) || decide (c = '.')) && matchstar c here text)

/-- The last lines of `matchhere`: one character, and then `here`. -/
def matchone (c : Char) (here : List Char -> Bool) : List Char -> Bool
  | [] => false
  | t :: text => (decide (c = '.') || decide (c = t)) && here text

def matchhere : List Char -> List Char -> Bool
  | [], _ => true
  | [c], text => if c = '$' then text.isEmpty else matchone c (fun _ => true) text
  | c :: d :: re, text =>
    if d = '*' then
      matchstar c (matchhere re) text
    else
      matchone c (matchhere (d :: re)) text

def matchAt (re : List Char) : List Char -> Bool
  | [] => matchhere re []
  | t :: text => matchhere re (t :: text) || matchAt re text

def matchText (re text : List Char) : Bool :=
  match re with
  | '^' :: re => matchhere re text
  | re => matchAt re text

/-! ## The pattern language -/

inductive Item where
  | one (x : Char)
  | star (x : Char)

def items : List Char -> List Item × Bool
  | [] => ([], false)
  | [c] => if c = '$' then ([], true) else ([.one c], false)
  | c :: d :: re =>
    if d = '*' then
      (.star c :: (items re).1, (items re).2)
    else
      (.one c :: (items (d :: re)).1, (items (d :: re)).2)

def Stands (x t : Char) : Prop :=
  x = '.' ∨ x = t

def Item.single (x : Char) : Language Char :=
  {w | exists t, w = [t] ∧ Stands x t}

open Computability in
def Item.language : Item -> Language Char
  | .one x => Item.single x
  | .star x => (Item.single x)∗

def language (is : List Item) : Language Char :=
  (is.map Item.language).prod

/-- A word of the items begins the text, and reaches its end if the pattern is closed. -/
def Begins (re text : List Char) : Prop :=
  exists u v, text = u ++ v ∧ u ∈ language (items re).1 ∧ ((items re).2 = true -> v = [])

theorem mem_language_cons {i : Item} {is : List Item} {w : List Char} :
    w ∈ language (i :: is) <-> exists u v, u ∈ i.language ∧ v ∈ language is ∧ u ++ v = w := by
  unfold language
  rw [List.map_cons, List.prod_cons, Language.mem_mul]
  constructor
  · rintro ⟨u, hu, v, hv, h⟩
    exact ⟨u, v, hu, hv, h⟩
  · rintro ⟨u, v, hu, hv, h⟩
    exact ⟨u, hu, v, hv, h⟩

theorem mem_star {x : Char} {w : List Char} :
    w ∈ (Item.star x).language <-> forall t, t ∈ w -> Stands x t := by
  change w ∈ KStar.kstar (Item.single x) <-> _
  rw [Language.mem_kstar]
  constructor
  · rintro ⟨ws, rfl, hws⟩ t ht
    obtain ⟨u, hu, htu⟩ := List.mem_flatten.mp ht
    obtain ⟨s, rfl, hs⟩ := hws u hu
    rw [List.mem_singleton.mp htu]
    exact hs
  · intro h
    refine ⟨w.map ([·]), (List.flatMap_singleton' w).symm, ?_⟩
    intro u hu
    obtain ⟨t, ht, rfl⟩ := List.mem_map.mp hu
    exact ⟨t, rfl, h t ht⟩

variable {c : Char} {text : List Char}

theorem matchstar_iff {here : List Char -> Bool} :
    matchstar c here text = true <->
      exists u v, text = u ++ v ∧ (forall t, t ∈ u -> Stands c t) ∧ here v = true := by
  induction text with
  | nil =>
    constructor
    · intro h
      exact ⟨[], [], rfl, fun t ht => absurd ht List.not_mem_nil, h⟩
    · rintro ⟨u, v, huv, -, hv⟩
      obtain ⟨rfl, rfl⟩ := List.append_eq_nil_iff.mp huv.symm
      exact hv
  | cons t text ih =>
    rw [matchstar, Bool.or_eq_true, Bool.and_eq_true, ih, Bool.or_eq_true, decide_eq_true_eq,
      decide_eq_true_eq]
    constructor
    · rintro (h | ⟨hc, u, v, rfl, hu, hv⟩)
      · exact ⟨[], t :: text, rfl, fun s hs => absurd hs List.not_mem_nil, h⟩
      · refine ⟨t :: u, v, rfl, ?_, hv⟩
        exact List.forall_mem_cons.mpr ⟨hc.symm.imp_right Eq.symm, hu⟩
    · rintro ⟨u, v, huv, hu, hv⟩
      cases u with
      | nil => exact Or.inl (huv ▸ hv)
      | cons s u =>
        obtain ⟨rfl, rfl⟩ := List.cons.inj huv
        obtain ⟨hs, hu⟩ := List.forall_mem_cons.mp hu
        exact Or.inr ⟨hs.symm.imp_left Eq.symm, u, v, rfl, hu, hv⟩

theorem matchone_iff {here : List Char -> Bool} :
    matchone c here text = true <->
      exists t rest, text = t :: rest ∧ Stands c t ∧ here rest = true := by
  cases text with
  | nil => simp [matchone]
  | cons t text => simp [matchone, Stands]

theorem begins_nil (text : List Char) : Begins [] text :=
  ⟨[], text, rfl, rfl, fun h => absurd h Bool.false_ne_true⟩

theorem begins_dollar : Begins ['$'] text <-> text = [] := by
  constructor
  · rintro ⟨u, v, rfl, hu, hv⟩
    rw [hv rfl, List.append_nil]
    exact hu
  · rintro rfl
    exact ⟨[], [], rfl, rfl, fun _ => rfl⟩

theorem begins_star {re : List Char} :
    Begins (c :: '*' :: re) text <->
      exists u v, text = u ++ v ∧ (forall t, t ∈ u -> Stands c t) ∧ Begins re v := by
  simp only [Begins, items, if_true, mem_language_cons, mem_star]
  constructor
  · rintro ⟨_, v, rfl, ⟨u, w, hu, hw, rfl⟩, hv⟩
    exact ⟨u, w ++ v, List.append_assoc u w v, hu, w, v, rfl, hw, hv⟩
  · rintro ⟨u, _, rfl, hu, w, v, rfl, hw, hv⟩
    exact ⟨u ++ w, v, (List.append_assoc u w v).symm, ⟨u, w, hu, hw, rfl⟩, hv⟩

theorem begins_one {re : List Char}
    (hitems : items (c :: re) = (.one c :: (items re).1, (items re).2)) :
    Begins (c :: re) text <-> exists t rest, text = t :: rest ∧ Stands c t ∧ Begins re rest := by
  simp only [Begins, hitems, mem_language_cons]
  constructor
  · rintro ⟨_, v, rfl, ⟨_, w, ⟨t, rfl, ht⟩, hw, rfl⟩, hv⟩
    exact ⟨t, w ++ v, rfl, ht, w, v, rfl, hw, hv⟩
  · rintro ⟨t, _, rfl, ht, w, v, rfl, hw, hv⟩
    exact ⟨t :: w, v, rfl, ⟨[t], w, ⟨t, rfl, ht⟩, hw, rfl⟩, hv⟩

theorem matchhere_iff :
    forall re text : List Char, matchhere re text = true <-> Begins re text
  | [], text => ⟨fun _ => begins_nil text, fun _ => rfl⟩
  | [c], text => by
      unfold matchhere
      by_cases hc : c = '$'
      · subst hc
        rw [if_pos rfl, begins_dollar]
        exact List.isEmpty_iff
      · have hitems : items [c] = (.one c :: (items []).1, (items []).2) := if_neg hc
        rw [if_neg hc, matchone_iff, begins_one hitems]
        simp only [begins_nil]
  | c :: d :: re, text => by
      unfold matchhere
      by_cases hd : d = '*'
      · subst hd
        rw [if_pos rfl, matchstar_iff, begins_star]
        simp only [matchhere_iff re]
      · have hitems : items (c :: d :: re) =
            (.one c :: (items (d :: re)).1, (items (d :: re)).2) := if_neg hd
        rw [if_neg hd, matchone_iff, begins_one hitems]
        simp only [matchhere_iff (d :: re)]

theorem matchAt_iff (re text : List Char) :
    matchAt re text = true <-> exists p rest, text = p ++ rest ∧ Begins re rest := by
  induction text with
  | nil =>
    rw [matchAt, matchhere_iff]
    constructor
    · intro h
      exact ⟨[], [], rfl, h⟩
    · rintro ⟨p, rest, hp, h⟩
      obtain ⟨rfl, rfl⟩ := List.append_eq_nil_iff.mp hp.symm
      exact h
  | cons t text ih =>
    rw [matchAt, Bool.or_eq_true, matchhere_iff, ih]
    constructor
    · rintro (h | ⟨p, rest, rfl, h⟩)
      · exact ⟨[], t :: text, rfl, h⟩
      · exact ⟨t :: p, rest, rfl, h⟩
    · rintro ⟨p, rest, hp, h⟩
      cases p with
      | nil => exact Or.inl (hp ▸ h)
      | cons s p =>
        obtain ⟨rfl, rfl⟩ := List.cons.inj hp
        exact Or.inr ⟨p, rest, rfl, h⟩

/-- A text matches when a part of it is a word of the pattern's items: a part that
begins the text after a `^`, and one that ends it before a `$`. -/
theorem match_iff (re text : List Char) :
    matchText re text = true <->
      exists p u v, text = p ++ u ++ v ∧ (re.head? = some '^' -> p = []) ∧
        u ∈ language (items (if re.head? = some '^' then re.tail else re)).1 ∧
        ((items (if re.head? = some '^' then re.tail else re)).2 = true -> v = []) := by
  by_cases hhead : re.head? = some '^'
  · obtain ⟨re, rfl⟩ := List.head?_eq_some_iff.mp hhead
    change matchhere re text = true <-> _
    rw [matchhere_iff]
    constructor
    · rintro ⟨u, v, rfl, hu, hv⟩
      exact ⟨[], u, v, rfl, fun _ => rfl, hu, hv⟩
    · rintro ⟨p, u, v, rfl, hp, hu, hv⟩
      rw [hp rfl]
      exact ⟨u, v, rfl, hu, hv⟩
  · have hmatch : matchText re text = matchAt re text := by
      unfold matchText
      split
      · exact absurd rfl hhead
      · rfl
    rw [hmatch, matchAt_iff, if_neg hhead]
    constructor
    · rintro ⟨p, _, rfl, u, v, rfl, hu, hv⟩
      exact ⟨p, u, v, (List.append_assoc p u v).symm, fun h => absurd h hhead, hu, hv⟩
    · rintro ⟨p, u, v, rfl, -, hu, hv⟩
      exact ⟨p, u ++ v, List.append_assoc p u v, u, v, rfl, hu, hv⟩

end User
end Xv6
