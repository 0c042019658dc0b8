import Mathlib.Init

/-!
# Computations that may stop

Inversion and introduction rules for `Except` used as the monad of code that
may panic.
-/

namespace Xv6
namespace Lib

variable {err alpha alpha' beta beta' : Type}

theorem ok_bind (a : alpha) (f : alpha -> Except err beta) : (Except.ok a >>= f) = f a :=
  rfl

variable {x : Except err alpha}

theorem bind_eq_ok {f : alpha -> Except err beta} {b : beta} :
    (x >>= f) = .ok b <-> exists a, x = .ok a ∧ f a = .ok b := by
  cases x with
  | error e =>
    constructor
    · intro h
      cases h
    · intro h
      rcases h with ⟨a, ha, _⟩
      cases ha
  | ok a =>
    constructor
    · intro h
      exact ⟨a, rfl, h⟩
    · intro h
      rcases h with ⟨a', ha, hf⟩
      cases ha
      exact hf

theorem map_eq_ok {f : alpha -> beta} {b : beta} :
    x.map f = .ok b <-> exists a, x = .ok a ∧ f a = b := by
  cases x with
  | error e =>
    constructor
    · intro h
      cases h
    · intro h
      rcases h with ⟨a, ha, _⟩
      cases ha
  | ok a =>
    constructor
    · intro h
      cases h
      exact ⟨a, rfl, rfl⟩
    · intro h
      rcases h with ⟨a', ha, hf⟩
      cases ha
      rw [← hf]
      rfl

theorem map_eq_error {f : alpha -> beta} {e : err} :
    x.map f = .error e <-> x = .error e := by
  cases x with
  | error e' =>
    constructor
    · intro h
      cases h
      rfl
    · intro h
      cases h
      rfl
  | ok a =>
    constructor
    · intro h
      cases h
    · intro h
      cases h

theorem map_bind (x : Except err alpha) (f : alpha -> Except err beta) (g : beta -> beta') :
    (x >>= f).map g = x >>= fun a => (f a).map g := by
  cases x with
  | error e => rfl
  | ok a => rfl

theorem bind_sim {x' : Except err alpha'} {f : alpha -> Except err beta}
    {f' : alpha' -> Except err beta'} {g : alpha -> alpha'} {h : beta -> beta'}
    (hx : x.map g = x') (hf : forall a, (f a).map h = f' (g a)) :
    (x >>= f).map h = x' >>= f' := by
  rw [← hx]
  cases x with
  | error e => rfl
  | ok a => exact hf a

theorem toOption_eq_some {a : alpha} :
    x.toOption = some a <-> x = .ok a := by
  cases x with
  | error e =>
    constructor
    · intro h
      cases h
    · intro h
      cases h
  | ok b =>
    constructor
    · intro h
      cases h
      rfl
    · intro h
      cases h
      rfl

def passes (x : Except err alpha) (test : alpha -> Bool) : Bool :=
  x.toOption.any test

theorem passes_eq_true {test : alpha -> Bool} :
    passes x test = true <-> exists a, x = .ok a ∧ test a = true := by
  unfold passes
  rw [Option.any_eq_true]
  simp only [toOption_eq_some]

def stops (x : Except err alpha) (test : err -> Bool) : Bool :=
  match x with
  | .ok _ => false
  | .error e => test e

theorem stops_eq_true {test : err -> Bool} :
    stops x test = true <-> exists e, x = .error e ∧ test e = true := by
  cases x with
  | error e =>
    constructor
    · intro h
      exact ⟨e, rfl, h⟩
    · rintro ⟨e', he, h⟩
      cases he
      exact h
  | ok a =>
    constructor
    · intro h
      cases h
    · rintro ⟨e, he, _⟩
      cases he

end Lib
end Xv6
