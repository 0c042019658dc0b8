import Mathlib.Logic.Function.Basic
import Mathlib.Data.List.Basic
import Mathlib.Data.Set.Basic

/-!
# Redo logs

A device with a redo log holds a header, which lists the addresses of the
committed but possibly not yet installed cells, a log slot for each header
entry, and the home cells themselves.  `Recoverable` says that installing the
log would produce a given durable store; the lemmas below say which device
writes keep it, which is the whole crash argument of the protocol.
-/

namespace Xv6
namespace Lib

open Function

/-!
## Stores

A store is a function on addresses; a batch of writes is applied left to right.
-/

namespace Store

variable {addr val : Type} [DecidableEq addr]

def writeAll (d : addr -> val) (ws : List (addr × val)) : addr -> val :=
  ws.foldl (fun d w => update d w.1 w.2) d

@[simp] theorem writeAll_nil (d : addr -> val) :
    writeAll d [] = d := rfl

theorem writeAll_append (d : addr -> val) (ws ws' : List (addr × val)) :
    writeAll d (ws ++ ws') = writeAll (writeAll d ws) ws' := by
  unfold writeAll
  rw [List.foldl_append]

theorem writeAll_concat (d : addr -> val) (ws : List (addr × val)) (a : addr) (v : val) :
    writeAll d (ws ++ [(a, v)]) = update (writeAll d ws) a v := by
  rw [writeAll_append]
  rfl

theorem writeAll_of_not_mem (d : addr -> val) {ws : List (addr × val)} {a : addr}
    (h : forall v, (a, v) ∉ ws) :
    writeAll d ws a = d a := by
  induction ws generalizing d with
  | nil =>
    rfl
  | cons w rest ih =>
    have hne : a ≠ w.1 := by
      intro heq
      apply h w.2
      rw [heq]
      exact List.mem_cons_self
    have hrest : forall v, (a, v) ∉ rest := by
      intro v hv
      exact h v (List.mem_cons_of_mem w hv)
    change writeAll (update d w.1 w.2) rest a = d a
    rw [ih _ hrest, update_of_ne hne]

end Store

namespace RedoLog

variable {addr val : Type}

structure Device (addr val : Type) where
  head : List addr
  slot : Nat -> val
  home : addr -> val

structure Recoverable (homes : Set addr) (d : Device addr val)
    (dur : addr -> val) : Prop where
  head_home : forall a, a ∈ d.head -> a ∈ homes
  slot_eq : forall (i : Nat) (h : i < d.head.length), d.slot i = dur d.head[i]
  home_eq : forall a, a ∈ homes -> a ∉ d.head -> d.home a = dur a

variable {homes : Set addr} {d : Device addr val} {dur : addr -> val}

theorem recoverable_of_head_nil (hnil : d.head = [])
    (hhome : forall a, a ∈ homes -> d.home a = dur a) :
    Recoverable homes d dur := by
  constructor
  · intro a ha
    rw [hnil] at ha
    cases ha
  · intro i hi
    simp [hnil] at hi
  · intro a ha _
    exact hhome a ha

theorem Recoverable.home_of_head_nil (h : Recoverable homes d dur) (hnil : d.head = []) :
    forall a, a ∈ homes -> d.home a = dur a := by
  intro a ha
  apply h.home_eq a ha
  rw [hnil]
  exact List.not_mem_nil

theorem Recoverable.congr {d' : Device addr val}
    (h : Recoverable homes d dur) (hhead : d'.head = d.head)
    (hslot : forall i, i < d.head.length -> d'.slot i = d.slot i)
    (hhome : forall a, a ∈ homes -> d'.home a = d.home a) :
    Recoverable homes d' dur := by
  constructor
  · rw [hhead]
    exact h.head_home
  · intro i hi
    have hi' : i < d.head.length := by
      rw [← hhead]
      exact hi
    rw [hslot i hi', h.slot_eq i hi']
    simp only [hhead]
  · intro a ha hnot
    rw [hhead] at hnot
    rw [hhome a ha]
    exact h.home_eq a ha hnot

/-!
## The four device writes

Filling a slot while the header is empty, replacing an empty header by the
header of the next batch, installing one logged cell, and clearing the header
once every logged cell is installed.
-/

theorem Recoverable.commit {dur' : addr -> val} (h : Recoverable homes d dur) (hnil : d.head = [])
    {batch : List addr} (hbatch : forall a, a ∈ batch -> a ∈ homes)
    (hslot : forall (i : Nat) (hi : i < batch.length), d.slot i = dur' batch[i])
    (hrest : forall a, a ∈ homes -> a ∉ batch -> dur' a = dur a) :
    Recoverable homes { d with head := batch } dur' := by
  constructor
  · exact hbatch
  · exact hslot
  · intro a ha hnot
    rw [hrest a ha hnot]
    exact h.home_of_head_nil hnil a ha

theorem Recoverable.install [DecidableEq addr] (h : Recoverable homes d dur) {i : Nat}
    (hi : i < d.head.length) :
    Recoverable homes
      { d with home := update d.home d.head[i] (d.slot i) } dur := by
  constructor
  · exact h.head_home
  · exact h.slot_eq
  · intro a ha hnot
    have hne : a ≠ d.head[i] := by
      intro heq
      apply hnot
      rw [heq]
      exact List.getElem_mem hi
    change update d.home d.head[i] (d.slot i) a = dur a
    rw [update_of_ne hne]
    exact h.home_eq a ha hnot

/-!
## Progress of an installation

The first `k` logged cells have reached their home addresses.  Installing the
next cell never undoes one: a cell that is listed twice receives the same
durable value both times.
-/

def Installed (d : Device addr val) (dur : addr -> val) (k : Nat) : Prop :=
  forall a, a ∈ d.head.take k -> d.home a = dur a

theorem installed_zero (d : Device addr val) (dur : addr -> val) :
    Installed d dur 0 := by
  intro a ha
  simp at ha

theorem Installed.succ [DecidableEq addr] {i : Nat} (hrec : Recoverable homes d dur)
    (h : Installed d dur i) (hi : i < d.head.length) :
    Installed { d with home := update d.home d.head[i] (d.slot i) }
      dur (i + 1) := by
  intro a ha
  change update d.home d.head[i] (d.slot i) a = dur a
  by_cases heq : a = d.head[i]
  · rw [heq, update_self]
    exact hrec.slot_eq i hi
  · rw [update_of_ne heq]
    apply h
    change a ∈ d.head.take (i + 1) at ha
    rw [List.take_succ_eq_append_getElem hi, List.mem_append] at ha
    cases ha with
    | inl hold => exact hold
    | inr hnew => exact absurd (List.mem_singleton.mp hnew) heq

end RedoLog
end Lib
end Xv6
