import Xv6.Lib.Circular
import Xv6.Lib.Transition
import Mathlib.Logic.Function.Basic

/-!
# The console

`consoleintr` and `consoleread` of `console.c`.  Both run under `cons.lock`:
`consoleintr` from beginning to end, `consoleread` except for the time that it
sleeps.  A reader that sleeps looks at the buffer again when it has the lock back;
what has woken it does not matter here.

Readers are not killed and their buffers are valid.  What is echoed to the screen
is left out, and so is `procdump`.
-/

namespace Xv6
namespace Console

open Lib

def INPUT_BUF_SIZE : Nat := 128

def WORD : Nat := 2 ^ 32

def ctrlD : UInt8 := 4

def ctrlP : UInt8 := 16

def ctrlU : UInt8 := 21

def ctrlH : UInt8 := 8

def del : UInt8 := 127

def newline : UInt8 := 10

def carriageReturn : UInt8 := 13

/-- `cons`: the read index `r` is `nread` and the edit index `e` is `nwrite`. -/
structure Cons extends Circular UInt8 where
  w : Nat

namespace Cons

def putc (cs : Cons) (c : UInt8) : Cons :=
  { cs with toCircular := cs.toCircular.put INPUT_BUF_SIZE WORD c }

def erase (cs : Cons) : Cons :=
  { cs with toCircular := cs.toCircular.back WORD }

theorem erase_toCircular (cs : Cons) : cs.erase.toCircular = cs.toCircular.back WORD := by
  rw [erase]

theorem erase_w (cs : Cons) : cs.erase.w = cs.w := by
  rw [erase]

/-- `cons.buf[(cons.e-1) % INPUT_BUF_SIZE]` -/
def last (cs : Cons) : UInt8 :=
  cs.toCircular.last INPUT_BUF_SIZE WORD

def front (cs : Cons) : UInt8 :=
  cs.toCircular.front INPUT_BUF_SIZE

def getc (cs : Cons) : Cons :=
  { cs with toCircular := cs.toCircular.advance WORD }

def ungetc (cs : Cons) : Cons :=
  { cs with nread := (cs.nread + (WORD - 1)) % WORD }

def used (cs : Cons) : Nat :=
  cs.toCircular.count WORD

def ready (cs : Cons) : Nat :=
  (cs.w + WORD - cs.nread) % WORD

def edited (cs : Cons) : Nat :=
  (cs.nwrite + WORD - cs.w) % WORD

end Cons

def killLine : Nat -> Cons -> Cons
  | 0, cs => cs
  | k + 1, cs =>
    if cs.nwrite ≠ cs.w ∧ cs.last ≠ newline then killLine k cs.erase else cs

def consoleintr (cs : Cons) (c : UInt8) : Cons :=
  if c = ctrlP then
    cs
  else if c = ctrlU then
    killLine cs.edited cs
  else if c = ctrlH ∨ c = del then
    if cs.nwrite ≠ cs.w then cs.erase else cs
  else if c ≠ 0 ∧ cs.used < INPUT_BUF_SIZE then
    let c := if c = carriageReturn then newline else c
    let cs := cs.putc c
    if c = newline ∨ c = ctrlD ∨ cs.used = INPUT_BUF_SIZE then { cs with w := cs.nwrite } else cs
  else
    cs

/-- A call of `consoleread`: `n` counts down from `target`.  `seen` are the characters that the
call has looked at and `bytes` those that it has copied to the user. -/
structure Read where
  call : Nat
  target : Int
  n : Int
  seen : List UInt8
  bytes : List UInt8
deriving DecidableEq, Repr

def Read.ret (x : Read) : Int :=
  x.target - x.n

inductive Outcome where
  | loop (x : Read)
  | sleep (x : Read)
  | ret (x : Read)

def consolereadIter (cs : Cons) (x : Read) : Cons × Outcome :=
  if 0 < x.n then
    if cs.nread = cs.w then
      (cs, .sleep x)
    else if cs.front = ctrlD then
      (if x.n < x.target then cs.getc.ungetc else cs.getc,
        .ret { x with seen := x.seen ++ [cs.front] })
    else
      let x' : Read :=
        { x with
          n := x.n - 1
          seen := x.seen ++ [cs.front]
          bytes := x.bytes ++ [cs.front] }
      (cs.getc, if cs.front = newline then .ret x' else .loop x')
  else
    (cs, .ret x)

/-!
## What the console is for
-/

/-- The input as a user sees it: what has been committed, the line that can still be edited, and
how much of the former has been read. -/
structure Line where
  committed : List UInt8
  pending : List UInt8
  taken : Nat

def Line.type (l : Line) (c : UInt8) : Line :=
  if c = ctrlP then
    l
  else if c = ctrlU then
    { l with pending := [] }
  else if c = ctrlH ∨ c = del then
    { l with pending := l.pending.dropLast }
  else if c ≠ 0 ∧ (l.committed ++ l.pending).length < l.taken + INPUT_BUF_SIZE then
    let c := if c = carriageReturn then newline else c
    let line := l.pending ++ [c]
    if c = newline ∨ c = ctrlD ∨ (l.committed ++ line).length = l.taken + INPUT_BUF_SIZE then
      { l with
        committed := l.committed ++ line
        pending := [] }
    else
      { l with pending := line }
  else
    l

/-!
## The machine

`line` is what the user sees, followed from the outside.  `delivered` are the
bytes copied to users, each with the call it was for, and `returned` the calls
that have returned, both in the order of time.
-/

inductive Pc where
  | idle
  -- in `acquire(&cons.lock)`, at the start of a call or in `sleep`
  | lock (x : Read)
  | loop (x : Read)

structure Sys (nproc : Nat) where
  cons : Cons
  lock : Option (Fin nproc)
  pcs : Fin nproc -> Pc
  calls : Nat
  line : Line
  delivered : List (Nat × UInt8)
  returned : List Read

inductive Action (nproc : Nat) where
  | consoleintr (c : UInt8)
  | consoleread (p : Fin nproc) (n : Int)
  | go (p : Fin nproc)

namespace Sys

variable {nproc : Nat}

def goto (s : Sys nproc) (p : Fin nproc) (pc : Pc) : Sys nproc :=
  { s with pcs := Function.update s.pcs p pc }

/-- The buffer and a call change.  The input counts as read when the read index has moved. -/
def after (s : Sys nproc) (cs : Cons) (x x' : Read) : Sys nproc :=
  { s with
    cons := cs
    line :=
      if cs.nread = s.cons.nread then s.line else { s.line with taken := s.line.taken + 1 }
    delivered := s.delivered ++ (x'.bytes.drop x.bytes.length).map fun c => (x.call, c) }

def iterate (s : Sys nproc) (p : Fin nproc) (x : Read) : Sys nproc :=
  match consolereadIter s.cons x with
  | (cs, .loop x') => (s.after cs x x').goto p (.loop x')
  | (cs, .sleep x') => { (s.after cs x x').goto p (.lock x') with lock := none }
  | (cs, .ret x') =>
    { (s.after cs x x').goto p .idle with
      lock := none
      returned := s.returned ++ [x'] }

def step (s : Sys nproc) : Action nproc -> Option (Sys nproc)
  | .consoleintr c =>
    if s.lock = none then
      some
        { s with
          cons := Console.consoleintr s.cons c
          line := s.line.type c }
    else
      none
  | .consoleread p n =>
    match s.pcs p with
    | .idle =>
      some
        { s.goto p (.lock
            {
              call := s.calls
              target := n
              n := n
              seen := []
              bytes := []
            }) with
          calls := s.calls + 1 }
    | _ => none
  | .go p =>
    match s.pcs p with
    | .idle => none
    | .lock x => if s.lock = none then some { s.goto p (.loop x) with lock := some p } else none
    | .loop x => some (s.iterate p x)

structure Fresh (s : Sys nproc) : Prop where
  r : s.cons.nread = 0
  w : s.cons.w = 0
  e : s.cons.nwrite = 0
  lock : s.lock = none
  pcs : forall p, s.pcs p = .idle
  line : s.line = { committed := [], pending := [], taken := 0 }
  delivered : s.delivered = []
  returned : s.returned = []

def booted : Sys 1 :=
  {
    cons :=
      {
        cells := fun _ => 0
        nread := 0
        nwrite := 0
        w := 0
      }
    lock := none
    pcs := fun _ => .idle
    calls := 0
    line :=
      {
        committed := []
        pending := []
        taken := 0
      }
    delivered := []
    returned := []
  }

end Sys

def system (nproc : Nat) : System (Sys nproc) (Action nproc) where
  init := Sys.Fresh
  step := fun s a s' => s.step a = some s'

end Console
end Xv6
