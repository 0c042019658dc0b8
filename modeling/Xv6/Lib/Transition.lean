import Mathlib.Logic.Relation
import Mathlib.Algebra.Order.Ring.Nat

/-!
# Labelled transition systems

Every concurrent part of the kernel is given as a set of initial states and a
labelled step relation.  A run is restricted by a side condition on the steps
it may take, so that one system carries both the unrestricted runs and the runs
of callers that keep to a discipline.
-/

namespace Xv6
namespace Lib

structure System (state label : Type) where
  init : state -> Prop
  step : state -> label -> state -> Prop

namespace System

variable {state label : Type}

/-- States reached from an initial one by steps that all meet `ok`. -/
inductive ReachableVia (M : System state label)
    (ok : state -> label -> Prop) : state -> Prop where
  | init {s : state} : M.init s -> ReachableVia M ok s
  | step {s s' : state} {l : label} :
      ReachableVia M ok s -> ok s l -> M.step s l s' -> ReachableVia M ok s'

def Reachable (M : System state label) : state -> Prop :=
  M.ReachableVia fun _ _ => True

def restart (M : System state label) (s0 : state) : System state label :=
  { M with init := fun s => s = s0 }

/-!
## Invariants

An invariant holds initially and is kept by every permitted step.  Weakening the
side condition only adds runs.
-/

variable {M : System state label} {ok : state -> label -> Prop} {s : state}

theorem ReachableVia.invariant {I : state -> Prop} (hreach : M.ReachableVia ok s)
    (hinit : forall s, M.init s -> I s)
    (hstep : forall s l s', I s -> ok s l -> M.step s l s' -> I s') :
    I s := by
  induction hreach with
  | init h =>
    exact hinit _ h
  | step _ hok hst ih =>
    exact hstep _ _ _ ih hok hst

theorem ReachableVia.mono {ok' : state -> label -> Prop} (hreach : M.ReachableVia ok s)
    (himp : forall s l, ok s l -> ok' s l) :
    M.ReachableVia ok' s := by
  induction hreach with
  | init h =>
    exact ReachableVia.init h
  | step _ hok hst ih =>
    exact ReachableVia.step ih (himp _ _ hok) hst

/-!
## Runs of a step function

A computable step function that takes only steps of the system can be run on a
list of labels, and every state it returns is reachable.
-/

def run (f : state -> label -> Option state) (ok : state -> label -> Prop)
    [forall s l, Decidable (ok s l)] : state -> List label -> Option state
  | s, [] => some s
  | s, l :: ls => if ok s l then (f s l).bind fun s' => run f ok s' ls else none

theorem ReachableVia.run [forall s l, Decidable (ok s l)] {f : state -> label -> Option state}
    (hf : forall s l s', f s l = some s' -> M.step s l s') {s' : state} {ls : List label}
    (hreach : M.ReachableVia ok s) (hrun : System.run f ok s ls = some s') :
    M.ReachableVia ok s' := by
  induction ls generalizing s with
  | nil =>
    cases hrun
    exact hreach
  | cons l ls ih =>
    rw [System.run] at hrun
    split at hrun
    · next hok =>
        rcases Option.bind_eq_some_iff.mp hrun with ⟨s1, hstep, hrest⟩
        exact ih (hreach.step hok (hf _ _ _ hstep)) hrest
    · cases hrun

theorem ReachableVia.run_any [forall s l, Decidable (ok s l)] {f : state -> label -> Option state}
    {ls : List label} {test : state -> Bool} (hreach : M.ReachableVia ok s)
    (hf : forall s l s', f s l = some s' -> M.step s l s')
    (hrun : (System.run f ok s ls).any test = true) :
    exists s', M.ReachableVia ok s' ∧ test s' = true := by
  obtain ⟨s', hs', htest⟩ := (Option.any_eq_true _ _).mp hrun
  exact ⟨s', hreach.run hf hs', htest⟩

end System

instance neZero_one : NeZero 1 :=
  ⟨by decide⟩

instance neZero_two : NeZero 2 :=
  ⟨by decide⟩

end Lib
end Xv6
