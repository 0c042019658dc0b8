import Xv6.Process.Accounting

/-!
# References to files and pipes

Between calls the count of a file is the number of descriptors that point to it, the
flags of a pipe say which of its ends have descriptors, and its page goes back to the
free list with the last one.
-/

namespace Xv6
namespace Process

open Lib Vm Function

def Slot (s : Kernel) (i fd f : Nat) : Prop :=
  i < NPROC ∧ fd < NOFILE ∧ (s.proc i).ofile fd = some f

def EndHeld (s : Kernel) (writable : Bool) (q : Page) : Prop :=
  exists i fd f, Slot s i fd f ∧ (s.file f).type = .pipe ∧ (s.file f).writable = writable ∧
    (s.file f).pipe = q

section

variable {kept : Reserve} {pend : Nat -> Nat} {s s' : Kernel} {i : Nat}

/-!
## Counting descriptors
-/

variable {f fd k : Nat} {q : Page}

theorem ends_ne_zero {file : Nat -> File} {writable : Bool} :
    ends file writable q ≠ 0 <-> exists f, f < NFILE ∧ (file f).IsEnd writable q := by
  constructor
  · intro hne
    rcases Finset.exists_ne_zero_of_sum_ne_zero hne with ⟨f, hf, hone⟩
    refine ⟨f, Finset.mem_range.mp hf, ?_⟩
    by_contra hnot
    exact hone (if_neg hnot)
  · rintro ⟨f, hf, hend⟩
    have hle := le_sum_range hf (fun g => if (file g).IsEnd writable q then 1 else 0)
    rw [if_pos hend] at hle
    exact Nat.ne_of_gt hle

theorem pipeUse_ne_zero {file : Nat -> File} :
    pipeUse file q ≠ 0 <-> exists f writable, f < NFILE ∧ (file f).IsEnd writable q := by
  have hmax : pipeUse file q ≠ 0 <-> ends file false q ≠ 0 ∨ ends file true q ≠ 0 := by
    unfold pipeUse
    omega
  rw [hmax, ends_ne_zero, ends_ne_zero]
  constructor
  · rintro (⟨f, hf, hend⟩ | ⟨f, hf, hend⟩)
    · exact ⟨f, false, hf, hend⟩
    · exact ⟨f, true, hf, hend⟩
  · rintro ⟨f, writable, hf, hend⟩
    cases writable with
    | false => exact Or.inl ⟨f, hf, hend⟩
    | true => exact Or.inr ⟨f, hf, hend⟩

def EndsStay (s s' : Kernel) : Prop :=
  forall f writable q, (s.file f).IsEnd writable q -> (s'.file f).IsEnd writable q

theorem EndsStay.pipeUse (h : EndsStay s s') (hq : pipeUse s.file q ≠ 0) :
    pipeUse s'.file q ≠ 0 := by
  rcases pipeUse_ne_zero.mp hq with ⟨f, writable, hf, hend⟩
  exact pipeUse_ne_zero.mpr ⟨f, writable, hf, h f writable q hend⟩

theorem Private.file_eq (h : Private s s' i) : s'.file = s.file := by
  rw [h.eq]
  rfl

/-- References between calls.  `freed`: a step after which no descriptor points to a pipe any more
has put its page, which was not free before, on the free list once. -/
structure Counted (s : Kernel) : Prop where
  refs : forall f, f < NFILE -> (s.file f).ref = refCount s.proc f
  free : forall f, f < NFILE -> ((s.file f).ref = 0 <-> ¬ exists i fd, Slot s i fd f)
  closed : forall f, f < NFILE -> (s.file f).ref = 0 -> (s.file f).type = .none
  no_panic : forall l, Enabled s l -> Fits s l ->
    step s l ≠ .error .filedup ∧ step s l ≠ .error .fileclose
  flags : forall q, EndHeld s false q ∨ EndHeld s true q ->
    ((s.pipe q).readopen = true <-> EndHeld s false q) ∧
      ((s.pipe q).writeopen = true <-> EndHeld s true q)
  page : forall q, EndHeld s false q ∨ EndHeld s true q -> s.kmem.free.count q = 0
  freed : forall l s', Enabled s l -> Fits s l -> step s l = .ok s' -> forall q,
    EndHeld s false q ∨ EndHeld s true q -> ¬ (EndHeld s' false q ∨ EndHeld s' true q) ->
    s'.kmem.free.count q = 1

end

/-- The first process opens a pipe, duplicates its read end, forks and closes the read end; the
child exits. -/
def shared : List Label :=
  [.pipe 0 0, .dup 0 0, .fork 0, .close 0 0, .exit 1]

end Process
end Xv6
