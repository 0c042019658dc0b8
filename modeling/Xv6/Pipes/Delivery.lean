import Xv6.Pipes.Fifo

/-!
# What a read delivers

The copy loop of `piperead` runs under `pi->lock` from its first byte to its last,
so what a call takes out of the pipe is a function of the pipe and of the
addresses that `copyout` accepts.

The byte at which `copyout` fails has left the pipe already.
-/

namespace Xv6
namespace Pipes

open Lib

/-- What a call of `piperead` leaves behind: the pipe, the value that it returns and the bytes
that have reached the user. -/
structure Delivery where
  pipe : Pipe
  ret : Nat
  bytes : List UInt8

/-- The copy loop from byte `i` on.  `dst i` says whether `addr + i` can be written to. -/
def pipereadFor (dst : Nat -> Bool) (n : Int) : Nat -> Delivery -> Delivery
  | 0, x => x
  | fuel + 1, x =>
    match pipereadIter x.pipe n x.ret (if dst x.ret then .ok x.pipe.head else .bad) with
    | (pi, .body (.readFor _ i), .taken ch) =>
      pipereadFor dst n fuel
        {
          pipe := pi
          ret := i
          bytes := x.bytes ++ [ch]
        }
    | (pi, _, _) => { x with pipe := pi }

def piperead (dst : Nat -> Bool) (n : Int) (pi : Pipe) : Delivery :=
  pipereadFor dst n (n.toNat + 1)
    {
      pipe := pi
      ret := 0
      bytes := []
    }

def Pipe.Valid (pi : Pipe) : Prop :=
  exists taken stored, pi.toCircular.Tracks PIPESIZE WORD taken stored

def Pipe.contents (pi : Pipe) : List UInt8 :=
  pi.toCircular.contents PIPESIZE WORD

namespace Pipe

variable {pi : Pipe}

theorem Valid.contents_nil (h : pi.Valid) : pi.contents = [] <-> pi.Empty := by
  rcases h with ⟨taken, stored, htracks⟩
  have hhist := htracks.history pipesize_dvd_word pipesize_lt_word
  have hempty := htracks.empty_iff pipesize_lt_word
  constructor
  · intro hnil
    change pi.toCircular.contents PIPESIZE WORD = [] at hnil
    rw [hnil, List.append_nil] at hhist
    rw [Empty, hempty, hhist]
  · intro heq
    rw [Empty, hempty] at heq
    have hlen := congrArg List.length hhist
    rw [List.length_append] at hlen
    have hzero : pi.contents.length = 0 := by
      change (pi.toCircular.contents PIPESIZE WORD).length = 0
      omega
    exact List.eq_nil_of_length_eq_zero hzero

theorem Valid.take (h : pi.Valid) (hne : ¬ pi.Empty) :
    pi.take.Valid ∧ pi.contents = pi.head :: pi.take.contents := by
  rcases h with ⟨taken, stored, htracks⟩
  have hsome : taken.length ≠ stored.length := by
    intro heq
    exact hne ((htracks.empty_iff pipesize_lt_word).mpr heq)
  have hnext := htracks.advance pipesize_dvd_word hsome
  refine ⟨⟨_, _, hnext⟩, ?_⟩
  have hold := htracks.history pipesize_dvd_word pipesize_lt_word
  have hnew := hnext.history pipesize_dvd_word pipesize_lt_word
  rw [← hold, List.append_assoc] at hnew
  exact (List.append_cancel_left hnew).symm

end Pipe

/-!
## The loop
-/

structure Delivered (pi : Pipe) (x : Delivery) : Prop where
  valid : x.pipe.Valid
  nread : x.pipe.nread = (pi.nread + x.ret) % WORD
  ret : x.bytes.length = x.ret
  split : pi.contents = x.bytes ++ x.pipe.contents

variable {pi : Pipe} {x : Delivery} {dst : Nat -> Bool} {n : Int} {fuel : Nat}

theorem Delivered.next (h : Delivered pi x) (hne : ¬ x.pipe.Empty) :
    Delivered pi
      {
        pipe := x.pipe.take
        ret := x.ret + 1
        bytes := x.bytes ++ [x.pipe.head]
      } := by
  rcases h.valid.take hne with ⟨hvalid, hcontents⟩
  refine ⟨hvalid, ?_, ?_, ?_⟩
  · change (x.pipe.nread + 1) % WORD = _
    rw [h.nread, Nat.mod_add_mod]
    rfl
  · rw [List.length_append, h.ret]
    rfl
  · rw [h.split, hcontents, List.append_assoc]
    rfl

theorem pipereadFor_next
    (hlt : (x.ret : Int) < n) (hne : ¬ x.pipe.Empty) (hdst : dst x.ret = true) :
    pipereadFor dst n (fuel + 1) x = pipereadFor dst n fuel
      {
        pipe := x.pipe.take
        ret := x.ret + 1
        bytes := x.bytes ++ [x.pipe.head]
      } := by
  rw [pipereadFor, if_pos hdst]
  simp only [pipereadIter, if_pos hlt, if_neg hne]

theorem pipereadFor_stop
    (h : ¬ (x.ret : Int) < n ∨ x.pipe.Empty) : pipereadFor dst n (fuel + 1) x = x := by
  rw [pipereadFor]
  by_cases hlt : (x.ret : Int) < n
  · have hempty : x.pipe.Empty := h.resolve_left fun hno => hno hlt
    simp only [pipereadIter, if_pos hlt, if_pos hempty]
  · simp only [pipereadIter, if_neg hlt]

theorem pipereadFor_bad
    (hlt : (x.ret : Int) < n) (hne : ¬ x.pipe.Empty) (hdst : dst x.ret = false) :
    pipereadFor dst n (fuel + 1) x = { x with pipe := x.pipe.take } := by
  rw [pipereadFor, hdst]
  simp only [pipereadIter, if_pos hlt, if_neg hne, Bool.false_eq_true, if_false]

/-- The destination can be written to as far as the call may get. -/
def Accepts (dst : Nat -> Bool) (n : Int) (pi : Pipe) : Prop :=
  forall i : Nat, (i : Int) < n -> i < pi.contents.length -> dst i = true

/-- What a call leaves behind in which `copyout` fails: one byte is neither delivered nor in the
pipe any more. -/
structure Lost (dst : Nat -> Bool) (n : Int) (pi : Pipe) (x : Delivery) : Prop where
  failed : (x.ret : Int) < n ∧ dst x.ret = false
  valid : x.pipe.Valid
  nread : x.pipe.nread = (pi.nread + x.ret + 1) % WORD
  ret : x.bytes.length = x.ret
  split : exists ch, pi.contents = x.bytes ++ ch :: x.pipe.contents

theorem Lost.not_delivered (h : Lost dst n pi x) : ¬ Delivered pi x := by
  intro hdel
  rcases h.split with ⟨ch, hsplit⟩
  rw [hdel.split] at hsplit
  exact List.ne_cons_self (List.append_cancel_left hsplit)

theorem pipereadFor_ends (fuel : Nat)
    (h : Delivered pi x) (hbefore : forall i, i < x.ret -> dst i = true) (hle : x.ret <= n.toNat)
    (hfuel : n.toNat < fuel + x.ret) :
    (Accepts dst n pi ∧ Delivered pi (pipereadFor dst n fuel x) ∧
      (pipereadFor dst n fuel x).ret = min n.toNat pi.contents.length) ∨
    (¬ Accepts dst n pi ∧ Lost dst n pi (pipereadFor dst n fuel x)) := by
  induction fuel generalizing x with
  | zero => omega
  | succ fuel ih =>
    have hlen : pi.contents.length = x.ret + x.pipe.contents.length := by
      rw [h.split, List.length_append, h.ret]
    by_cases hlt : (x.ret : Int) < n
    · by_cases hempty : x.pipe.Empty
      · rw [pipereadFor_stop (.inr hempty)]
        rw [h.valid.contents_nil.mpr hempty, List.length_nil] at hlen
        exact .inl ⟨fun i _ hi => hbefore i (by omega), h, by omega⟩
      · rcases h.valid.take hempty with ⟨hvalid, hcontents⟩
        cases hdst : dst x.ret with
        | true =>
          rw [pipereadFor_next hlt hempty hdst]
          refine ih (h.next hempty) ?_ (by dsimp only; omega) (by dsimp only; omega)
          intro i hi
          rcases Nat.lt_or_eq_of_le (Nat.le_of_lt_succ hi) with hi | rfl
          · exact hbefore i hi
          · exact hdst
        | false =>
          rw [pipereadFor_bad hlt hempty hdst]
          rw [hcontents, List.length_cons] at hlen
          refine .inr ⟨?_, ⟨hlt, hdst⟩, hvalid, ?_, h.ret, x.pipe.head, ?_⟩
          · intro haccepts
            rw [haccepts x.ret hlt (by omega)] at hdst
            cases hdst
          · change (x.pipe.nread + 1) % WORD = _
            rw [h.nread, Nat.mod_add_mod]
          · rw [h.split, hcontents]
    · rw [pipereadFor_stop (.inl hlt)]
      exact .inl ⟨fun i hi _ => hbefore i (by omega), h, by omega⟩

/-!
## A failed read
-/

theorem piperead_delivers (h : pi.Valid) :
    (Delivered pi (piperead dst n pi) <-> Accepts dst n pi) ∧
      (Accepts dst n pi -> (piperead dst n pi).ret = min n.toNat pi.contents.length) ∧
      (¬ Accepts dst n pi -> Lost dst n pi (piperead dst n pi)) := by
  have hnread : pi.nread = (pi.nread + 0) % WORD := by
    rcases h with ⟨taken, stored, htracks⟩
    rw [Nat.add_zero, htracks.nread_eq, Nat.mod_mod]
  have hstart : Delivered pi { pipe := pi, ret := 0, bytes := [] } :=
    ⟨h, hnread, rfl, (List.nil_append _).symm⟩
  have hbefore : forall i, i < 0 -> dst i = true := fun i hi => absurd hi (Nat.not_lt_zero i)
  rcases pipereadFor_ends (n.toNat + 1) hstart hbefore (Nat.zero_le n.toNat)
    (Nat.lt_succ_self _) with ⟨haccepts, hdel, hret⟩ | ⟨hrefuses, hlost⟩
  · exact ⟨⟨fun _ => haccepts, fun _ => hdel⟩, fun _ => hret, fun hno => absurd haccepts hno⟩
  · exact ⟨⟨fun hdel => absurd hdel hlost.not_delivered, fun hyes => absurd hyes hrefuses⟩,
      fun hyes => absurd hyes hrefuses, fun _ => hlost⟩

def onePipe : Pipe :=
  {
    cells := fun _ => 7
    nread := 0
    nwrite := 1
    readopen := true
    writeopen := true
  }

theorem onePipe_valid : onePipe.Valid := by
  refine ⟨[], [7], ?_⟩
  refine ⟨by decide, by decide, rfl, rfl, ?_, rfl⟩
  intro k x _ hx
  cases k with
  | zero => exact Option.some.inj hx
  | succ k => cases hx

theorem piperead_delivers_one :
    onePipe.Valid ∧ Delivered onePipe (piperead (fun _ => true) 1 onePipe) ∧
      Lost (fun _ => false) 1 onePipe (piperead (fun _ => false) 1 onePipe) := by
  have hrefuses : ¬ Accepts (fun _ => false) 1 onePipe :=
    fun h => Bool.false_ne_true (h 0 (by decide) (by decide))
  exact ⟨onePipe_valid, (piperead_delivers onePipe_valid).1.mpr fun _ _ _ => rfl,
    (piperead_delivers onePipe_valid).2.2 hrefuses⟩

theorem piperead_failed_loses :
    onePipe.Valid ∧ onePipe.contents = [7] ∧ (piperead (fun _ => false) 1 onePipe).ret = 0 ∧
      (piperead (fun _ => false) 1 onePipe).pipe.nread = onePipe.nread + 1 ∧
      (piperead (fun _ => false) 1 onePipe).pipe.contents = [] :=
  ⟨onePipe_valid, by decide, by decide, by decide, by decide⟩

end Pipes
end Xv6
