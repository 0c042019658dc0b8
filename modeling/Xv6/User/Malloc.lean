import Xv6.Lib.Blocks

/-!
# `malloc` and `free`

The allocator of the user library.  The header at an address is given by its two fields;
addresses count bytes and sizes count headers.
-/

namespace Xv6
namespace User

open Function Lib.Blocks

def HEADER : Nat :=
  16

def UINT : Nat :=
  2 ^ 32

/-- `regions` is the memory that `sbrk` has given, and `brk` its end. -/
structure Alloc where
  ptr : Nat -> Nat
  size : Nat -> Nat
  freep : Nat
  brk : Nat
  regions : List Block

namespace Alloc

def setPtr (s : Alloc) (p v : Nat) : Alloc :=
  { s with ptr := update s.ptr p v }

def setSize (s : Alloc) (p v : Nat) : Alloc :=
  { s with size := update s.size p v }

def place (s : Alloc) (bp : Nat) : Nat -> Nat -> Option Nat
  | 0, _ => none
  | fuel + 1, p =>
    if p < bp ∧ bp < s.ptr p then
      some p
    else if s.ptr p <= p ∧ (p < bp ∨ bp < s.ptr p) then
      some p
    else
      s.place bp fuel (s.ptr p)

def joinNext (s : Alloc) (bp p : Nat) : Alloc :=
  if bp + HEADER * s.size bp = s.ptr p then
    (s.setSize bp ((s.size bp + s.size (s.ptr p)) % UINT)).setPtr bp (s.ptr (s.ptr p))
  else
    s.setPtr bp (s.ptr p)

def joinPrev (s : Alloc) (bp p : Nat) : Alloc :=
  if p + HEADER * s.size p = bp then
    (s.setSize p ((s.size p + s.size bp) % UINT)).setPtr p (s.ptr bp)
  else
    s.setPtr p bp

def free (fuel ap : Nat) (s : Alloc) : Option Alloc := do
  let p <- s.place (ap - HEADER) fuel s.freep
  return { (s.joinNext (ap - HEADER) p).joinPrev (ap - HEADER) p with freep := p }

/-- `sbrk`: it may fail, and it fails beyond the limit.  Between two calls the program may
have moved the break up by a gap.  A negative `n` gives memory back. -/
def sbrk (limit : Nat) (answer : Option Nat) (n : Int) (s : Alloc) : Option (Nat × Alloc) :=
  match answer with
  | none => none
  | some gap =>
    if 0 < n then
      if limit < total s.regions + n.toNat then
        none
      else
        some (s.brk + gap, { s with
          brk := s.brk + gap + n.toNat
          regions := (s.brk + gap, n.toNat) :: s.regions })
    else
      let brk := if n.natAbs <= s.brk then s.brk - n.natAbs else s.brk
      some (s.brk, { s with
        brk := brk
        regions := s.regions.map fun r => (r.1, min r.2 (brk - r.1)) })

def morecore (limit fuel nu : Nat) (answer : Option Nat) (s : Alloc) :
    Option (Option (Nat × Alloc)) :=
  let nu := if nu < 4096 then 4096 else nu
  match s.sbrk limit answer (BitVec.ofNat 32 (nu * HEADER)).toInt with
  | none => some none
  | some (hp, s) => do
      let s <- (s.setSize hp nu).free fuel (hp + HEADER)
      return some (s.freep, s)

def take (s : Alloc) (nunits prevp : Nat) : Nat × Alloc :=
  let p := s.ptr prevp
  if s.size p = nunits then
    (p + HEADER, { s.setPtr prevp (s.ptr p) with freep := prevp })
  else
    let q := p + HEADER * (s.size p - nunits)
    (q + HEADER, { (s.setSize p (s.size p - nunits)).setSize q nunits with freep := prevp })

/-- The loop of `malloc`, in which `p` is always the block after `prevp`. -/
def mallocLoop (limit nunits : Nat) :
    Nat -> Nat -> List (Option Nat) -> Alloc -> Option (Nat × Alloc)
  | 0, _, _, _ => none
  | fuel + 1, prevp, answers, s =>
    if nunits <= s.size (s.ptr prevp) then
      some (s.take nunits prevp)
    else if s.ptr prevp = s.freep then
      match morecore limit fuel nunits (answers.headD none) s with
      | none => none
      | some none => some (0, s)
      | some (some (p, s)) => mallocLoop limit nunits fuel p answers.tail s
    else
      mallocLoop limit nunits fuel (s.ptr prevp) answers s

def start (base : Nat) (s : Alloc) : Alloc :=
  if s.freep = 0 then { (s.setPtr base base).setSize base 0 with freep := base } else s

end Alloc

def nunits (nbytes : BitVec 32) : Nat :=
  (nbytes.toNat + HEADER - 1) / HEADER + 1

def malloc (base limit fuel : Nat) (nbytes : BitVec 32) (answers : List (Option Nat)) (s : Alloc) :
    Option (Nat × Alloc) :=
  Alloc.mallocLoop limit (nunits nbytes) fuel (s.start base).freep answers (s.start base)

end User
end Xv6
