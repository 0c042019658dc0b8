import Xv6.Fs.Code
import Xv6.Lib.Slots
import Mathlib.Data.List.GetD

/-!
# The blocks of an inode

An inode has 13 slots of its own and, if the last of them is in use, the 256 slots
of its indirect block.  What the code does to an inode is to fill a slot or to
clear one; block `bn` of the file is in the slot that `bmap` looks at.
-/

namespace Xv6
namespace Fs

open Lib Function

variable {j k w bn off : Nat} {bytes : List UInt8}

theorem BSIZE_eq : BSIZE = 1024 :=
  rfl

inductive Slot where
  | direct (k : Fin (NDIRECT + 1))
  | entry (j : Fin NINDIRECT)
deriving DecidableEq

def Slot.indirect : Slot :=
  .direct (Fin.last NDIRECT)

namespace Dinode

variable (d : Dinode) (data : Nat -> Bytes)

def ind : Nat :=
  d.addrs (Fin.last NDIRECT)

def slots : Slot -> Nat
  | .direct k => d.addrs k
  | .entry j => if d.ind = 0 then 0 else Fs.entry (data d.ind) j

def slotOf (bn : Nat) (h : bn < MAXFILE) : Slot :=
  if hdirect : bn < NDIRECT then
    .direct ⟨bn, Nat.lt_succ_of_lt hdirect⟩
  else
    .entry ⟨bn - NDIRECT, by rw [MAXFILE] at h; omega⟩

def blockAt (bn : Nat) : Nat :=
  if h : bn < MAXFILE then d.slots data (slotOf bn h) else 0

def byte (off : Nat) : UInt8 :=
  data (d.blockAt data (off / BSIZE)) (off % BSIZE)

def taken : Set Nat :=
  Taken (d.slots data)

end Dinode

variable {d d' : Dinode} {data data' : Nat -> Bytes}

theorem slots_entry (j : Fin NINDIRECT) :
    d.slots data (.entry j) = if d.ind = 0 then 0 else entry (data d.ind) j :=
  rfl

theorem entry_ne_direct (j : Fin NINDIRECT) (k : Fin (NDIRECT + 1)) :
    Slot.entry j ≠ Slot.direct k :=
  nofun

theorem slotOf_ne_indirect (h : bn < MAXFILE) :
    Dinode.slotOf bn h ≠ Slot.indirect := by
  unfold Dinode.slotOf Slot.indirect
  split
  · next hdirect =>
      intro heq
      have hk := congrArg Fin.val (Slot.direct.inj heq)
      simp only [Fin.val_last] at hk
      omega
  · exact nofun

theorem slotOf_inj {bn' : Nat} {h : bn < MAXFILE} {h' : bn' < MAXFILE}
    (heq : Dinode.slotOf bn h = Dinode.slotOf bn' h') : bn = bn' := by
  unfold Dinode.slotOf at heq
  split at heq
  · split at heq
    · exact congrArg Fin.val (Slot.direct.inj heq)
    · cases heq
  · split at heq
    · cases heq
    · have hval := congrArg Fin.val (Slot.entry.inj heq)
      dsimp only at hval
      omega

theorem blockAt_eq (h : bn < MAXFILE) :
    d.blockAt data bn = d.slots data (Dinode.slotOf bn h) :=
  dif_pos h

/-!
## Slots and data
-/

theorem slots_congr (h : d.ind ≠ 0 -> data' d.ind = data d.ind) :
    d.slots data' = d.slots data := by
  funext p
  cases p with
  | direct k => rfl
  | entry j =>
    rw [slots_entry, slots_entry]
    split
    · rfl
    · next hne => rw [h hne]

theorem ind_taken (h : d.ind ≠ 0) : d.ind ∈ d.taken data :=
  ⟨h, Slot.indirect, rfl⟩

theorem slots_of_agree (h : forall b, b ∈ d.taken data -> data' b = data b) :
    d.slots data' = d.slots data :=
  slots_congr fun hne => h _ (ind_taken hne)

theorem blockAt_of_slots (h : d.slots data' = d'.slots data) (bn : Nat) :
    d.blockAt data' bn = d'.blockAt data bn := by
  unfold Dinode.blockAt
  rw [h]

theorem blockAt_taken (h : d.blockAt data bn ≠ 0) : d.blockAt data bn ∈ d.taken data := by
  unfold Dinode.blockAt at h ⊢
  split at h
  · next hbn =>
      rw [dif_pos hbn]
      exact taken_of_ne h
  · exact absurd rfl h

theorem overwrite_inside {v : Bytes} (hlo : off <= j)
    (hhi : j - off < bytes.length) : Sys.overwrite v off bytes j = bytes[j - off] := by
  unfold Sys.overwrite
  rw [if_pos hlo, List.getD_eq_getElem _ _ hhi]

theorem overwrite_outside {v : Bytes}
    (h : j < off ∨ off + bytes.length <= j) : Sys.overwrite v off bytes j = v j := by
  unfold Sys.overwrite
  split
  · exact List.getD_eq_default _ _ (by omega)
  · rfl

theorem toBytes_length (k w : Nat) : (toBytes k w).length = k := by
  simp [toBytes]

theorem toBytes_getElem (h : j < (toBytes k w).length) :
    (toBytes k w)[j] = UInt8.ofNat (w / 256 ^ j) := by
  simp [toBytes]

theorem getLE_overwrite (v : Bytes) (hw : w < 256 ^ k) :
    (Sys.overwrite v off (toBytes k w)).getLE off k = w := by
  have hdigits : (Sys.overwrite v off (toBytes k w)).getLE off k = w % 256 ^ k := by
    apply Bytes.getLE_digits
    intro j hj
    have hlen : off + j - off < (toBytes k w).length := by
      rw [toBytes_length]
      omega
    rw [overwrite_inside (by omega) hlen, toBytes_getElem]
    congr 3
    omega
  rw [hdigits, Nat.mod_eq_of_lt hw]

theorem getLE_overwrite_disjoint (v : Bytes) {off' : Nat}
    (h : off' + k <= off ∨ off + bytes.length <= off') :
    (Sys.overwrite v off bytes).getLE off' k = v.getLE off' k := by
  apply Bytes.getLE_congr
  intro j hlo hhi
  apply overwrite_outside
  omega

theorem entry_zero (j : Nat) : entry (fun _ => 0) j = 0 := by
  unfold entry
  rw [Bytes.getLE_digits (w := 0)]
  · simp
  · intro i _
    simp

theorem entry_overwrite (v : Bytes) {j' : Nat} (hw : w < 2 ^ 32) :
    entry (Sys.overwrite v (4 * j) (toBytes 4 w)) j' = if j' = j then w else entry v j' := by
  unfold entry
  split
  · next heq =>
      subst heq
      exact getLE_overwrite v hw
  · next hne =>
      apply getLE_overwrite_disjoint
      rw [toBytes_length]
      omega

/-!
## Filling and clearing a slot
-/

theorem slots_addr {k : Fin (NDIRECT + 1)} (hk : k ≠ Fin.last NDIRECT) (b : Nat) :
    ((Update.addr k b).apply d).slots data = update (d.slots data) (.direct k) b := by
  have hind : ((Update.addr k b).apply d).ind = d.ind := update_of_ne (Ne.symm hk) _ _
  funext p
  cases p with
  | direct j =>
    rcases eq_or_ne j k with rfl | hj
    · rw [update_self]
      exact update_self _ _ _
    · rw [update_of_ne (fun h => hj (Slot.direct.inj h))]
      exact update_of_ne hj _ _
  | entry j =>
    rw [update_of_ne (entry_ne_direct j k), slots_entry, slots_entry, hind]

theorem slots_ind {b : Nat} (hnone : d.ind = 0) (hzero : data b = fun _ => 0) :
    ((Update.addr (Fin.last NDIRECT) b).apply d).slots data =
      update (d.slots data) Slot.indirect b := by
  have hind : ((Update.addr (Fin.last NDIRECT) b).apply d).ind = b := by
    change update d.addrs (Fin.last NDIRECT) b (Fin.last NDIRECT) = b
    exact update_self _ _ _
  funext p
  cases p with
  | direct j =>
    rcases eq_or_ne j (Fin.last NDIRECT) with rfl | hj
    · rw [Slot.indirect, update_self]
      exact hind
    · rw [Slot.indirect, update_of_ne (fun h => hj (Slot.direct.inj h))]
      exact update_of_ne hj _ _
  | entry j =>
    rw [Slot.indirect, update_of_ne (entry_ne_direct j _), slots_entry, slots_entry, hind,
      hnone, if_pos rfl, hzero]
    split
    · rfl
    · exact entry_zero _

theorem slots_store (hind : d.ind ≠ 0) (j : Fin NINDIRECT) (hw : w < 2 ^ 32) :
    d.slots (update data d.ind
        (Sys.overwrite (data d.ind) (4 * j) (toBytes 4 w))) =
      update (d.slots data) (.entry j) w := by
  funext p
  cases p with
  | direct k =>
    rw [update_of_ne (Ne.symm (entry_ne_direct j k))]
    rfl
  | entry j' =>
    rw [slots_entry, if_neg hind, update_self, entry_overwrite _ hw]
    rcases eq_or_ne j' j with rfl | hj
    · rw [if_pos rfl, update_self]
    · rw [if_neg (fun h => hj (Fin.ext h)),
        update_of_ne (fun h => hj (Slot.entry.inj h)), slots_entry, if_neg hind]

end Fs
end Xv6
