import Xv6.Lib.Result
import Mathlib.Logic.Function.Basic

/-!
# Programs over atomic actions

A program is a tree: it has returned, or its next atomic action is `a` and it
goes on with the answer.  What it may do is stated by rules on a resource that it
owns; `Rules.wp` takes the rules through a program.
-/

namespace Xv6
namespace Lib

inductive Program (A : Type) (R : A -> Type) (alpha : Type) where
  | ret (x : alpha)
  | act (a : A) (k : R a -> Program A R alpha)

namespace Program

variable {A : Type} {R : A -> Type} {alpha beta gamma : Type}

def bind : Program A R alpha -> (alpha -> Program A R beta) -> Program A R beta
  | ret x, f => f x
  | act a k, f => act a fun r => (k r).bind f

instance : Monad (Program A R) where
  pure := ret
  bind := bind

def perform (a : A) : Program A R (R a) :=
  act a ret

theorem bind_assoc (p : Program A R alpha) (f : alpha -> Program A R beta)
    (g : beta -> Program A R gamma) : (p.bind f).bind g = p.bind fun x => (f x).bind g := by
  induction p with
  | ret x => rfl
  | act a k ih =>
    simp only [bind]
    congr 1
    funext r
    exact ih r

/-!
## A program on its own
-/

section

variable {S E : Type} (exec : (a : A) -> S -> Except E (R a × S))

def run : Program A R alpha -> S -> Except E (alpha × S)
  | ret x, s => .ok (x, s)
  | act a k, s => (exec a s).bind fun (r, s') => (k r).run s'

theorem run_bind (p : Program A R alpha) (f : alpha -> Program A R beta) (s : S) :
    (p >>= f).run exec s = (p.run exec s).bind fun (x, s') => (f x).run exec s' := by
  induction p generalizing s with
  | ret x => rfl
  | act a k ih =>
    change (exec a s).bind _ = ((exec a s).bind _).bind _
    cases exec a s with
    | error e => rfl
    | ok rs => exact ih rs.1 rs.2

/-- The program returns and `Q` holds then, or it stops for one of the reasons `tol`. -/
def ends (tol : E -> Prop) (p : Program A R alpha) (Q : alpha -> S -> Prop) (s : S) : Prop :=
  match p.run exec s with
  | .ok (x, s') => Q x s'
  | .error e => tol e

variable {exec} {tol : E -> Prop} {p : Program A R alpha} {Q Q' : alpha -> S -> Prop} {s : S}

variable {s' : S} {x : alpha}

theorem run_bind_eq_ok {p : Program A R alpha} {f : alpha -> Program A R beta} {s : S} {y : beta} :
    (p >>= f).run exec s = .ok (y, s') <->
      exists x s1, p.run exec s = .ok (x, s1) ∧ (f x).run exec s1 = .ok (y, s') := by
  rw [run_bind]
  constructor
  · intro h
    rcases bind_eq_ok.mp h with ⟨⟨x, s1⟩, hp, hf⟩
    exact ⟨x, s1, hp, hf⟩
  · rintro ⟨x, s1, hp, hf⟩
    exact bind_eq_ok.mpr ⟨(x, s1), hp, hf⟩

theorem run_perform (a : A) (s : S) : (perform a : Program A R (R a)).run exec s = exec a s := by
  rw [perform, run]
  cases exec a s with
  | error e => rfl
  | ok rs => rfl

theorem ends_ret (h : Q x s) : ends exec tol (pure x) Q s :=
  h

theorem ends_mono (h : p.ends exec tol Q s) (hQ : forall x s', Q x s' -> Q' x s') :
    p.ends exec tol Q' s := by
  unfold ends at h ⊢
  split at h
  · exact hQ _ _ h
  · exact h

theorem ends_act {a : A} {f : R a -> Program A R beta} {Q : beta -> S -> Prop} {r : R a}
    (hexec : exec a s = .ok (r, s')) (hrest : (f r).ends exec tol Q s') :
    ends exec tol (perform a >>= f) Q s := by
  unfold ends at hrest ⊢
  rw [run_bind]
  change (match ((exec a s).bind _).bind _ with
    | .ok (x, s') => Q x s'
    | .error e => tol e)
  rw [hexec]
  exact hrest

theorem ends_perform {a : A} {Q : R a -> S -> Prop} {r : R a}
    (hexec : exec a s = .ok (r, s')) (h : Q r s') : ends exec tol (perform a) Q s := by
  unfold ends
  rw [perform, run, hexec]
  exact h

theorem ends_stop {a : A} {f : R a -> Program A R beta} {Q : beta -> S -> Prop} {e : E}
    (hexec : exec a s = .error e) (htol : tol e) : ends exec tol (perform a >>= f) Q s := by
  unfold ends
  rw [run_bind]
  change (match ((exec a s).bind _).bind _ with
    | .ok (x, s') => Q x s'
    | .error e => tol e)
  rw [hexec]
  exact htol

theorem ends_call {f : alpha -> Program A R beta} {P : alpha -> S -> Prop}
    {Q : beta -> S -> Prop} (h : p.ends exec tol P s)
    (hrest : forall x s', P x s' -> (f x).ends exec tol Q s') :
    ends exec tol (p >>= f) Q s := by
  unfold ends at h ⊢
  rw [run_bind]
  cases hrun : p.run exec s with
  | error e =>
    rw [hrun] at h
    exact h
  | ok xs =>
    rw [hrun] at h
    exact hrest xs.1 xs.2 h

theorem ends_run (h : p.ends exec tol Q s) (hrun : p.run exec s = .ok (x, s')) : Q x s' := by
  unfold ends at h
  rw [hrun] at h
  exact h

theorem ends_of_run (h : p.ends exec tol Q s)
    (hQ : forall x s', p.run exec s = .ok (x, s') -> Q x s' -> Q' x s') : p.ends exec tol Q' s := by
  unfold ends at h ⊢
  split at h
  · next x s' hrun => exact hQ x s' hrun h
  · exact h

theorem run_act (a : A) (k : R a -> Program A R alpha) :
    (act a k).run exec s = (exec a s).bind fun rs => (k rs.1).run exec rs.2 :=
  rfl

theorem run_keeps {full : S -> Prop}
    (hkeep : forall a s r s', exec a s = .ok (r, s') -> full s -> full s')
    (hrun : p.run exec s = .ok (x, s')) (hfull : full s) : full s' := by
  induction p generalizing s with
  | ret y =>
    cases hrun
    exact hfull
  | act a k ih =>
    rw [run_act] at hrun
    rcases bind_eq_ok.mp hrun with ⟨⟨r, s1⟩, hone, hrest⟩
    exact ih r hrest (hkeep a s r s1 hone hfull)

/-- A machine that does what another does to the states `f s`, up to the stop `bad`, as long as
nothing is `full`; then it may also stop for one of the reasons `tol`. -/
theorem run_map {S' : Type} {exec' : (a : A) -> S' -> Except E (R a × S')} {f : S -> S'} {bad : E}
    {full : S -> Prop} (hkeep : forall a s r s', exec a s = .ok (r, s') -> full s -> full s')
    (hexec : forall a s, exec a s ≠ .error bad ->
      exec' a (f s) = (exec a s).map (fun x => (x.1, f x.2)) ∨
        full s ∧ exists e, tol e ∧ exec' a (f s) = .error e)
    (hrun : p.run exec s ≠ .error bad) :
    p.run exec' (f s) = (p.run exec s).map (fun x => (x.1, f x.2)) ∨
      exists e, tol e ∧ p.run exec' (f s) = .error e ∧
        forall x s', p.run exec s = .ok (x, s') -> full s' := by
  induction p generalizing s with
  | ret x => exact .inl rfl
  | act a k ih =>
    have hbad : exec a s ≠ .error bad := by
      intro heq
      rw [run_act, heq] at hrun
      exact hrun rfl
    rcases hexec a s hbad with heq | ⟨hfull, e, htol, heq⟩
    · rw [run_act, run_act, heq]
      cases hone : exec a s with
      | error e => exact .inl rfl
      | ok rs =>
        rw [run_act, hone] at hrun
        exact ih rs.1 hrun
    · refine .inr ⟨e, htol, ?_, fun x s' hok => run_keeps hkeep hok hfull⟩
      rw [run_act, heq]
      rfl

theorem run_of_ne {exec' : (a : A) -> S -> Except E (R a × S)} {bad : E}
    (hexec : forall a s, exec a s ≠ .error bad -> exec a s = exec' a s)
    (hrun : p.run exec s ≠ .error bad) : p.run exec s = p.run exec' s := by
  induction p generalizing s with
  | ret x => rfl
  | act a k ih =>
    rw [run_act] at hrun
    have hbad : exec a s ≠ .error bad := by
      intro heq
      rw [heq] at hrun
      exact hrun rfl
    rw [run_act, run_act, ← hexec a s hbad]
    cases hone : exec a s with
    | error e => rfl
    | ok rs =>
      rw [hone] at hrun
      exact ih rs.1 hrun

theorem ends_ok (h : p.ends exec (fun _ => False) Q s) :
    exists x s', p.run exec s = .ok (x, s') ∧ Q x s' := by
  unfold ends at h
  split at h
  · next x s' hrun => exact ⟨x, s', hrun, h⟩
  · exact h.elim

end

end Program

/-!
## Rules
-/

/-- `may a x`: a thread that owns `x` may perform `a`.  `does a x r x'`: on the answer `r` it
owns `x'`. -/
structure Rules (A : Type) (R : A -> Type) (rho : Type) where
  may : A -> rho -> Prop
  does : (a : A) -> rho -> R a -> rho -> Prop

namespace Rules

variable {A : Type} {R : A -> Type} {alpha beta rho : Type} (L : Rules A R rho)

/-- The program keeps to the rules when it is started with the resource, and returns with one
that meets `Q`. -/
def wp : Program A R alpha -> (alpha -> rho -> Prop) -> rho -> Prop
  | .ret x, Q, o => Q x o
  | .act a k, Q, o => L.may a o ∧ forall r o', L.does a o r o' -> wp (k r) Q o'

variable {L} {p : Program A R alpha} {Q Q' : alpha -> rho -> Prop} {o : rho}

theorem wp_mono (h : L.wp p Q o) (hQ : forall x o', Q x o' -> Q' x o') : L.wp p Q' o := by
  induction p generalizing o with
  | ret x => exact hQ x o h
  | act a k ih => exact ⟨h.1, fun r o' hr => ih r (h.2 r o' hr)⟩

theorem wp_bind {f : alpha -> Program A R beta} {Q : beta -> rho -> Prop}
    (h : L.wp p (fun x o' => L.wp (f x) Q o') o) : L.wp (p >>= f) Q o := by
  induction p generalizing o with
  | ret x => exact h
  | act a k ih => exact ⟨h.1, fun r o' hr => ih r (h.2 r o' hr)⟩

theorem wp_act {a : A} {f : R a -> Program A R beta} {Q : beta -> rho -> Prop}
    (hmay : L.may a o) (hdoes : forall r o', L.does a o r o' -> L.wp (f r) Q o') :
    L.wp (Program.perform a >>= f) Q o :=
  ⟨hmay, hdoes⟩

theorem wp_call {f : alpha -> Program A R beta} {Q : beta -> rho -> Prop}
    {P : alpha -> rho -> Prop} (h : L.wp p P o)
    (hrest : forall x o', P x o' -> L.wp (f x) Q o') : L.wp (p >>= f) Q o :=
  wp_bind (wp_mono h hrest)

theorem run_congr {S E : Type} {exec exec' : (a : A) -> S -> Except E (R a × S)}
    (hsame : forall a s o, L.may a o -> exec a s = exec' a s)
    (hdoes : forall a o (r : R a), L.may a o -> exists o', L.does a o r o') (hwp : L.wp p Q o)
    (s : S) : p.run exec s = p.run exec' s := by
  induction p generalizing o s with
  | ret x => rfl
  | act a k ih =>
    rw [Program.run_act, Program.run_act, hsame a s o hwp.1]
    cases exec' a s with
    | error e => rfl
    | ok rs =>
      rcases hdoes a o rs.1 hwp.1 with ⟨o', hr⟩
      exact ih rs.1 (hwp.2 rs.1 o' hr) rs.2

end Rules

end Lib
end Xv6
