import Mathlib.Data.Nat.ModEq
import Mathlib.Data.List.TakeDrop
import Mathlib.Logic.Function.Basic

/-!
# Circular buffers with free-running counters

A buffer of `size` cells is read and written through two counters that are never
reset: they run modulo a word size and are reduced modulo `size` only to find a
cell.  Emptiness and fullness are tested by comparing the counters.  The buffer
is followed by two histories, the values stored and the values taken so far.
-/

namespace Xv6
namespace Lib

open Function

structure Circular (α : Type) where
  cells : Nat -> α
  nread : Nat
  nwrite : Nat

namespace Circular

variable {α : Type} (size modulus : Nat)

def put (q : Circular α) (x : α) : Circular α :=
  {
    cells := update q.cells (q.nwrite % size) x
    nread := q.nread
    nwrite := (q.nwrite + 1) % modulus
  }

def front (q : Circular α) : α :=
  q.cells (q.nread % size)

def advance (q : Circular α) : Circular α :=
  { q with nread := (q.nread + 1) % modulus }

def back (q : Circular α) : Circular α :=
  { q with nwrite := (q.nwrite + (modulus - 1)) % modulus }

def last (q : Circular α) : α :=
  q.cells ((q.nwrite + (modulus - 1)) % modulus % size)

/-- The difference of the counters, in machine arithmetic. -/
def count (q : Circular α) : Nat :=
  (q.nwrite + modulus - q.nread) % modulus

def contents (q : Circular α) : List α :=
  (List.range (q.count modulus)).map fun k =>
    q.cells ((q.nread + k) % modulus % size)

/-!
## Histories

The counters are the lengths of the two histories modulo the word size, what was
taken is what was stored first, and every value stored but not yet taken is in
its cell.
-/

structure Tracks (q : Circular α) (taken stored : List α) : Prop where
  behind : taken.length <= stored.length
  room : stored.length <= taken.length + size
  nread_eq : q.nread = taken.length % modulus
  nwrite_eq : q.nwrite = stored.length % modulus
  cell : forall k x, taken.length <= k -> stored[k]? = some x -> q.cells (k % size) = x
  taken_eq : taken = stored.take taken.length

theorem eq_of_mod_eq {a b m : Nat} (hle : a <= b) (hlt : b < a + m)
    (hmod : a % m = b % m) : a = b := by
  have hdvd : m ∣ b - a := (Nat.modEq_iff_dvd' hle).1 hmod
  have hzero : b - a = 0 := Nat.eq_zero_of_dvd_of_lt hdvd (by omega)
  omega

variable {size modulus} {q : Circular α} {taken stored : List α}

theorem tracks_nil (hr : q.nread = 0) (hw : q.nwrite = 0) : Tracks size modulus q [] [] where
  behind := by simp
  room := by simp
  nread_eq := by simp [hr]
  nwrite_eq := by simp [hw]
  cell := by
    intro k x _ hx
    simp at hx
  taken_eq := by simp

section

variable (h : Tracks size modulus q taken stored)
include h

theorem Tracks.empty_iff (hlt : size < modulus) :
    q.nread = q.nwrite <-> taken.length = stored.length := by
  rw [h.nread_eq, h.nwrite_eq]
  constructor
  · intro hmod
    have hroom := h.room
    exact eq_of_mod_eq h.behind (by omega) hmod
  · intro hlen
    rw [hlen]

theorem Tracks.full_iff (hlt : size < modulus) :
    q.nwrite = (q.nread + size) % modulus <->
      stored.length = taken.length + size := by
  rw [h.nread_eq, h.nwrite_eq, Nat.mod_add_mod]
  constructor
  · intro hmod
    have hbehind := h.behind
    exact eq_of_mod_eq h.room (by omega) hmod
  · intro hlen
    rw [hlen]

theorem Tracks.count_eq
    (hlt : size < modulus) : q.count modulus = stored.length - taken.length := by
  have hbehind := h.behind
  have hroom := h.room
  have hr : q.nread < modulus := by
    rw [h.nread_eq]
    exact Nat.mod_lt _ (by omega)
  have hcongr : (q.nwrite + modulus - q.nread) + taken.length ≡
      (stored.length - taken.length) + taken.length [MOD modulus] := by
    calc (q.nwrite + modulus - q.nread) + taken.length
        ≡ (q.nwrite + modulus - q.nread) + q.nread [MOD modulus] := by
          apply Nat.ModEq.add_left
          rw [h.nread_eq]
          exact (Nat.mod_modEq _ _).symm
      _ = q.nwrite + modulus := by omega
      _ ≡ q.nwrite [MOD modulus] := Nat.add_mod_right _ _
      _ ≡ stored.length [MOD modulus] := by
          rw [h.nwrite_eq]
          exact Nat.mod_modEq _ _
      _ = (stored.length - taken.length) + taken.length := by omega
  have hmod := Nat.ModEq.add_right_cancel' _ hcongr
  rw [count, hmod, Nat.mod_eq_of_lt (by omega)]

theorem Tracks.count_le (hlt : size < modulus) : q.count modulus <= size := by
  have hroom := h.room
  rw [h.count_eq hlt]
  omega

/-!
## The operations

A put into a buffer that is not full and an advance of one that is not empty
extend the histories.  Two live positions are less than `size` apart, so they
are in different cells.
-/

theorem Tracks.put (hdvd : size ∣ modulus) (hspace : stored.length ≠ taken.length + size) (x : α) :
    Tracks size modulus (q.put size modulus x) taken (stored ++ [x]) := by
  have hbehind := h.behind
  have hroom := h.room
  have hcell : q.nwrite % size = stored.length % size := by
    rw [h.nwrite_eq, Nat.mod_mod_of_dvd _ hdvd]
  constructor
  · simp only [List.length_append, List.length_singleton]
    omega
  · simp only [List.length_append, List.length_singleton]
    omega
  · exact h.nread_eq
  · simp only [Circular.put, h.nwrite_eq, List.length_append, List.length_singleton,
      Nat.mod_add_mod]
  · intro k y hk hy
    simp only [Circular.put, hcell]
    rcases Nat.lt_or_ge k stored.length with hold | hnew
    · rw [List.getElem?_append_left hold] at hy
      have hne : k % size ≠ stored.length % size := by
        intro hmod
        have := eq_of_mod_eq (Nat.le_of_lt hold) (by omega) hmod
        omega
      rw [update_of_ne hne]
      exact h.cell k y hk hy
    · rw [List.getElem?_append_right hnew] at hy
      have hzero : k - stored.length = 0 := by
        by_contra hpos
        have hlong : [x].length <= k - stored.length := by
          rw [List.length_singleton]
          omega
        rw [List.getElem?_eq_none hlong] at hy
        cases hy
      have hk' : k = stored.length := by omega
      subst hk'
      simp only [Nat.sub_self, List.getElem?_cons_zero, Option.some.injEq] at hy
      rw [update_self, hy]
  · rw [List.take_append_of_le_length hbehind]
    exact h.taken_eq

theorem Tracks.front_eq (hdvd : size ∣ modulus) {x : α}
    (hx : stored[taken.length]? = some x) : q.front size = x := by
  rw [front, h.nread_eq, Nat.mod_mod_of_dvd _ hdvd]
  exact h.cell taken.length x (Nat.le_refl _) hx

theorem Tracks.advance (hdvd : size ∣ modulus) (hsome : taken.length ≠ stored.length) :
    Tracks size modulus (q.advance modulus) (taken ++ [q.front size]) stored := by
  have hbehind := h.behind
  have hroom := h.room
  have hlt : taken.length < stored.length := by omega
  have hfront : q.front size = stored[taken.length] :=
    h.front_eq hdvd (List.getElem?_eq_getElem hlt)
  constructor
  · simp only [List.length_append, List.length_singleton]
    omega
  · simp only [List.length_append, List.length_singleton]
    omega
  · simp only [Circular.advance, h.nread_eq, List.length_append, List.length_singleton,
      Nat.mod_add_mod]
  · exact h.nwrite_eq
  · intro k x hk hx
    simp only [List.length_append, List.length_singleton] at hk
    exact h.cell k x (by omega) hx
  · rw [hfront, List.length_append, List.length_singleton, List.take_succ_eq_append_getElem hlt,
      ← h.taken_eq]

end

theorem back_mod {m n : Nat} (hm : 0 < m) : ((n + 1) % m + (m - 1)) % m = n % m := by
  rw [Nat.mod_add_mod]
  have heq : n + 1 + (m - 1) = n + m := by omega
  rw [heq, Nat.add_mod_right]

theorem Tracks.back {x : α} (h : Tracks size modulus q taken (stored ++ [x]))
    (hmod : 0 < modulus) (hlen : taken.length <= stored.length) :
    Tracks size modulus (q.back modulus) taken stored where
  behind := hlen
  room := by
    have hroom := h.room
    rw [List.length_append] at hroom
    omega
  nread_eq := h.nread_eq
  nwrite_eq := by
    change (q.nwrite + (modulus - 1)) % modulus = _
    rw [h.nwrite_eq, List.length_append]
    exact back_mod hmod
  cell := by
    intro k y hk hy
    refine h.cell k y hk ?_
    rw [List.getElem?_append_left (List.getElem?_eq_some_iff.mp hy).1]
    exact hy
  taken_eq := by
    have heq := h.taken_eq
    rw [List.take_append_of_le_length hlen] at heq
    exact heq

theorem Tracks.last_eq {x : α} (h : Tracks size modulus q taken (stored ++ [x]))
    (hdvd : size ∣ modulus) (hmod : 0 < modulus) (hlen : taken.length <= stored.length) :
    q.last size modulus = x := by
  rw [last, h.nwrite_eq, List.length_append]
  change q.cells (((stored.length + 1) % modulus + (modulus - 1)) % modulus % size) = x
  rw [back_mod hmod, Nat.mod_mod_of_dvd _ hdvd]
  exact h.cell stored.length x hlen List.getElem?_concat_length

theorem Tracks.history (h : Tracks size modulus q taken stored) (hdvd : size ∣ modulus)
    (hlt : size < modulus) : taken ++ q.contents size modulus = stored := by
  have hcontents : q.contents size modulus = stored.drop taken.length := by
    apply List.ext_getElem?
    intro k
    rw [contents, h.count_eq hlt, List.getElem?_map, List.getElem?_drop]
    rcases Nat.lt_or_ge k (stored.length - taken.length) with hk | hk
    · have hin : taken.length + k < stored.length := by omega
      rw [List.getElem?_range hk, List.getElem?_eq_getElem hin, Option.map_some]
      have hcell := h.cell (taken.length + k) stored[taken.length + k] (Nat.le_add_right _ _)
        (List.getElem?_eq_getElem hin)
      rw [h.nread_eq, Nat.mod_add_mod, Nat.mod_mod_of_dvd _ hdvd, hcell]
    · rw [List.getElem?_eq_none (by simpa using hk), Option.map_none,
        List.getElem?_eq_none (by omega)]
  rw [hcontents]
  conv_lhs => rw [h.taken_eq]
  rw [List.length_take, Nat.min_eq_left h.behind]
  exact List.take_append_drop _ _

end Circular
end Lib
end Xv6
