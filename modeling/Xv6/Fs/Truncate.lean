import Xv6.Fs.Mapping

/-!
# Truncation

`itrunc` takes the blocks of an inode out of their slots one after the other and
clears their bits.  Every block is in one slot, so no bit is cleared twice, and the bits
that are cleared are those of the blocks of the inode.
-/

namespace Xv6
namespace Fs
namespace Part

open Lib Function

/-- On the way from `v` to `v'` the slots in `gone` have been emptied.  The entries of the indirect
block are still in it, but their bits are cleared. -/
structure Released (sb : Superblock) (v v' : Part) (gone : Set Slot) : Prop where
  tx : v'.ops ≠ none
  logs : forall bits : List Nat, (forall b, b ∈ v.taken -> sb.bblock b ∈ bits) -> Logs v v' bits
  data : v'.data = v.data
  copy : v'.copy = v.copy
  fields : v'.d = { v.d with addrs := v'.d.addrs }
  cleared : forall k, Slot.direct k ∈ gone -> v'.d.addrs k = 0
  kept : forall k, Slot.direct k ∉ gone -> v'.d.addrs k = v.d.addrs k
  bitmap : forall b, v'.bitmap b = true <->
    v.bitmap b = true ∧ forall p, p ∈ gone -> v.slots p = b -> b = 0

namespace Released

variable {sb : Superblock} {v v' : Part} {gone : Set Slot} {p : Slot}

theorem refl (htx : v.ops ≠ none) : Released sb v v ∅ where
  tx := htx
  logs := fun bits _ => (Logs.same htx rfl rfl).mono (List.nil_subset bits)
  data := rfl
  copy := rfl
  fields := rfl
  cleared := fun _ hk => False.elim hk
  kept := fun _ _ => rfl
  bitmap := fun _ => ⟨fun h => ⟨h, fun _ hp => False.elim hp⟩, And.left⟩

section

variable (h : Released sb v v' gone)
include h

theorem marked (hapart : Apart v.slots)
    (hmarked : forall b, b ∈ v.taken -> v.bitmap b = true) (hp : p ∉ gone) (hne : v.slots p ≠ 0) :
    v'.bitmap (v.slots p) = true := by
  refine (h.bitmap _).mpr ⟨hmarked _ (taken_of_ne hne), ?_⟩
  intro q hq heq
  by_contra hzero
  have hqp : p = q := hapart p q heq.symm hne
  rw [hqp] at hp
  exact hp hq

theorem skip (hp : v.slots p = 0)
    (haddr : forall k, p = Slot.direct k -> v'.d.addrs k = 0) :
    Released sb v v' (insert p gone) where
  tx := h.tx
  logs := h.logs
  data := h.data
  copy := h.copy
  fields := h.fields
  cleared := by
    intro k hk
    rcases hk with heq | hk
    · exact haddr k heq.symm
    · exact h.cleared k hk
  kept := fun k hk => h.kept k fun hgone => hk (Set.mem_insert_of_mem _ hgone)
  bitmap := by
    intro b
    rw [h.bitmap b]
    refine and_congr_right fun _ => ⟨?_, fun hall q hq => hall q (Set.mem_insert_of_mem _ hq)⟩
    intro hall q hq heq
    rcases hq with rfl | hq
    · rw [← heq, hp]
    · exact hall q hq heq

theorem bits (hne : v.slots p ≠ 0) (b : Nat) :
    update v'.bitmap (v.slots p) false b = true <->
      v.bitmap b = true ∧ forall q, q ∈ insert p gone -> v.slots q = b -> b = 0 := by
  rcases eq_or_ne b (v.slots p) with rfl | hb
  · rw [update_self]
    constructor
    · exact nofun
    · intro hall
      exact absurd (hall.2 p (Set.mem_insert _ _) rfl) hne
  · rw [update_of_ne hb, h.bitmap b]
    refine and_congr_right fun _ => ⟨?_, fun hall q hq => hall q (Set.mem_insert_of_mem _ hq)⟩
    intro hall q hq heq
    rcases hq with rfl | hq
    · exact absurd heq.symm hb
    · exact hall q hq heq

theorem entry {j : Fin NINDIRECT} (hne : v.slots (.entry j) ≠ 0) :
    Released sb v
      ((v'.mark (v.slots (.entry j)) false).log (sb.bblock (v.slots (.entry j))))
      (insert (Slot.entry j) gone) where
  tx := log_tx (v := v'.mark (v.slots (.entry j)) false) h.tx _
  logs := fun bits hbits =>
    (h.logs bits hbits).step (v'.mark _ false) rfl rfl (hbits _ (taken_of_ne hne))
  data := h.data
  copy := h.copy
  fields := h.fields
  cleared := by
    intro k hk
    rcases hk with heq | hk
    · cases heq
    · exact h.cleared k hk
  kept := fun k hk => h.kept k fun hgone => hk (Set.mem_insert_of_mem _ hgone)
  bitmap := h.bits hne

theorem direct {k : Fin (NDIRECT + 1)} (hne : v.d.addrs k ≠ 0) :
    Released sb v
      (((v'.mark (v.d.addrs k) false).log (sb.bblock (v.d.addrs k))).setAddr k 0)
      (insert (Slot.direct k) gone) where
  tx := log_tx (v := v'.mark (v.d.addrs k) false) h.tx _
  logs := by
    intro bits hbits
    have hlogs := (h.logs bits hbits).step (v'.mark (v.d.addrs k) false) rfl rfl
      (hbits _ ⟨hne, Slot.direct k, rfl⟩)
    exact ⟨hlogs.tx, hlogs.subset, hlogs.nodup, hlogs.header⟩
  data := h.data
  copy := h.copy
  fields := congrArg (fun d : Dinode => { d with addrs := update v'.d.addrs k 0 }) h.fields
  cleared := by
    intro k' hk'
    change update v'.d.addrs k 0 k' = 0
    rcases eq_or_ne k' k with rfl | hne'
    · exact update_self _ _ _
    · rw [update_of_ne hne']
      rcases hk' with heq | hk'
      · exact absurd (Slot.direct.inj heq) hne'
      · exact h.cleared k' hk'
  kept := by
    intro k' hk'
    change update v'.d.addrs k 0 k' = _
    rw [update_of_ne]
    · exact h.kept k' fun hgone => hk' (Set.mem_insert_of_mem _ hgone)
    · rintro rfl
      exact hk' (Set.mem_insert _ _)
  bitmap := h.bits (p := Slot.direct k) hne

end

end Released

section

variable {nproc : Nat} {sb : Superblock} {i : Fin NINODE} {inum : Nat} {others : Bool} {v : Part}

variable {v' : Part} {gone : Set Slot}

theorem ends_itruncDirect {ks : List (Fin NDIRECT)}
    (hown : v.Owned sb) (h : Released sb v v' gone) (hks : ks.Nodup)
    (hgone : forall k, k ∈ ks -> Slot.direct k.castSucc ∉ gone) :
    Ends sb i inum others (itruncDirect i ks : Prog Unit)
      (fun _ v'' => Released sb v v'' (gone ∪ {p | exists k, k ∈ ks ∧ p = Slot.direct k.castSucc}))
      v' := by
  induction ks generalizing v' gone with
  | nil =>
    refine Program.ends_ret ?_
    have hset : gone ∪ {p | exists k : Fin NDIRECT, k ∈ [] ∧ p = Slot.direct k.castSucc} =
        gone := by
      ext p
      simp
    rw [hset]
    exact h
  | cons k ks ih =>
    have hset : gone ∪ {p | exists k', k' ∈ k :: ks ∧ p = Slot.direct k'.castSucc} =
        insert (Slot.direct k.castSucc) gone ∪
          {p | exists k', k' ∈ ks ∧ p = Slot.direct k'.castSucc} := by
      ext p
      simp only [List.mem_cons, Set.mem_union, Set.mem_insert_iff, Set.mem_ofPred_eq, or_and_right,
        exists_or, exists_eq_left]
      tauto
    rw [hset]
    rw [List.nodup_cons] at hks
    have hk := hgone k List.mem_cons_self
    have hrest : forall k', k' ∈ ks -> Slot.direct k'.castSucc ∉
        insert (Slot.direct k.castSucc) gone := by
      intro k' hk' hmem
      rcases hmem with heq | hmem
      · have hkk : k' = k := Fin.castSucc_injective _ (Slot.direct.inj heq)
        rw [hkk] at hk'
        exact hks.1 hk'
      · exact hgone k' (List.mem_cons_of_mem _ hk') hmem
    have hsame := h.kept k.castSucc hk
    unfold itruncDirect
    refine Program.ends_act exec_getInode ?_
    rw [hsame]
    split
    · next hzero =>
        refine ih (h.skip hzero ?_) hks.2 hrest
        intro k' heq
        rw [← Slot.direct.inj heq, hsame, hzero]
    · next hne =>
        have hmem : v.d.addrs k.castSucc ∈ v.taken := ⟨hne, Slot.direct k.castSucc, rfl⟩
        have hbit := h.marked hown.apart hown.marked hk hne
        refine Program.ends_act (exec_bfree h.tx (hown.data _ hmem).2 hbit) ?_
        refine Program.ends_act (exec_update _) ?_
        exact ih (h.direct hne) hks.2 hrest

theorem ends_itruncIndirect {js : List Nat} (hown : v.Owned sb)
    (hind : v.d.ind ≠ 0) (h : Released sb v v' gone) (hjs : js.Nodup)
    (hlt : forall j, j ∈ js -> j < NINDIRECT)
    (hgone : forall (j : Fin NINDIRECT), (j : Nat) ∈ js -> Slot.entry j ∉ gone) :
    Ends sb i inum others (itruncIndirect (v.data v.d.ind) js : Prog Unit)
      (fun _ v'' => Released sb v v''
        (gone ∪ {p | exists j : Fin NINDIRECT, (j : Nat) ∈ js ∧ p = Slot.entry j}) ∧
        v''.d = v'.d) v' := by
  induction js generalizing v' gone with
  | nil =>
    refine Program.ends_ret ⟨?_, rfl⟩
    have hset : gone ∪ {p | exists j : Fin NINDIRECT, (j : Nat) ∈ [] ∧ p = Slot.entry j} =
        gone := by
      ext p
      simp
    rw [hset]
    exact h
  | cons j js ih =>
    rw [List.nodup_cons] at hjs
    have hj := hlt j List.mem_cons_self
    have hset : gone ∪ {p | exists j' : Fin NINDIRECT, (j' : Nat) ∈ j :: js ∧ p = Slot.entry j'} =
        insert (Slot.entry ⟨j, hj⟩) gone ∪
          {p | exists j' : Fin NINDIRECT, (j' : Nat) ∈ js ∧ p = Slot.entry j'} := by
      ext p
      have hone : (exists j' : Fin NINDIRECT, (j' : Nat) = j ∧ p = Slot.entry j') <->
          p = Slot.entry ⟨j, hj⟩ := by
        constructor
        · rintro ⟨j', rfl, hp⟩
          exact hp
        · intro hp
          exact ⟨⟨j, hj⟩, rfl, hp⟩
      simp only [List.mem_cons, Set.mem_union, Set.mem_insert_iff, Set.mem_ofPred_eq, or_and_right,
        exists_or, hone]
      tauto
    rw [hset]
    have hnot := hgone ⟨j, hj⟩ List.mem_cons_self
    have hrest : forall j' : Fin NINDIRECT, (j' : Nat) ∈ js -> Slot.entry j' ∉
        insert (Slot.entry ⟨j, hj⟩) gone := by
      intro j' hj' hmem
      rcases hmem with heq | hmem
      · have hjj := congrArg Fin.val (Slot.entry.inj heq)
        rw [hjj] at hj'
        exact hjs.1 hj'
      · exact hgone j' (List.mem_cons_of_mem _ hj') hmem
    have hlt' : forall j', j' ∈ js -> j' < NINDIRECT :=
      fun j' hj' => hlt j' (List.mem_cons_of_mem _ hj')
    have hentry : v.slots (.entry ⟨j, hj⟩) = Fs.entry (v.data v.d.ind) j := if_neg hind
    unfold itruncIndirect
    rw [← hentry]
    split
    · next hzero => exact ih (h.skip hzero nofun) hjs.2 hlt' hrest
    · next hne =>
        have hbit := h.marked hown.apart hown.marked hnot hne
        refine Program.ends_act (exec_bfree h.tx (hown.data _ (taken_of_ne hne)).2 hbit) ?_
        exact ih (h.entry hne) hjs.2 hlt' hrest

structure Truncated (sb : Superblock) (inum : Nat) (v v' : Part) : Prop where
  tx : v'.ops ≠ none
  logs : forall bits : List Nat, (forall b, b ∈ v.taken -> sb.bblock b ∈ bits) ->
    Logs v v' (sb.iblock inum :: bits)
  d : v'.d = { v.d with size := 0, addrs := fun _ => 0 }
  copy : v'.copy = v'.d
  data : v'.data = v.data
  bitmap : forall b, v'.bitmap b = true <-> v.bitmap b = true ∧ b ∉ v.taken

theorem Released.truncated (h : Released sb v v' gone)
    (hall : forall p, p ∉ gone -> v.slots p = 0) (hdirect : forall k, Slot.direct k ∈ gone) :
    Truncated sb inum v (Part.log { v' with
      d := { v'.d with size := 0 }
      copy := { v'.d with size := 0 } } (sb.iblock inum)) where
  tx := log_tx (v := { v' with
    d := { v'.d with size := 0 }
    copy := { v'.d with size := 0 } }) h.tx _
  logs := fun bits hbits =>
    ((h.logs bits hbits).mono (List.subset_cons_self _ _)).step
      { v' with
        d := { v'.d with size := 0 }
        copy := { v'.d with size := 0 } } rfl rfl List.mem_cons_self
  d := by
    have haddrs : v'.d.addrs = fun _ => 0 := funext fun k => h.cleared k (hdirect k)
    change { v'.d with size := 0 } = _
    rw [h.fields, haddrs]
  copy := rfl
  data := h.data
  bitmap := by
    intro c
    refine (h.bitmap c).trans (and_congr_right fun _ => ?_)
    constructor
    · rintro hgone ⟨hne, p, rfl⟩
      by_cases hp : p ∈ gone
      · exact hne (hgone p hp rfl)
      · exact hne (hall p hp)
    · intro hnot p _ heq
      by_contra hne
      exact hnot ⟨hne, p, heq⟩

theorem ends_itruncEnd (h : Released sb v v' gone)
    (hall : forall p, p ∉ gone -> v.slots p = 0) (hdirect : forall k, Slot.direct k ∈ gone) :
    Ends sb i inum others (itrunc.itruncEnd i : Prog Unit) (fun _ => Truncated sb inum v) v' := by
  unfold itrunc.itruncEnd
  refine Program.ends_act (exec_update _) ?_
  exact Program.ends_perform (exec_iupdate h.tx) (h.truncated hall hdirect)

theorem ends_itrunc (hown : v.Owned sb) :
    Ends sb i inum others (itrunc i : Prog Unit) (fun _ => Truncated sb inum v) v := by
  unfold itrunc
  refine Program.ends_call (ends_itruncDirect hown (.refl hown.tx) (List.nodup_finRange NDIRECT)
    (fun _ _ => id)) ?_
  intro _ v1 h
  rw [Set.empty_union] at h
  generalize hgone : {p | exists k : Fin NDIRECT, k ∈ List.finRange NDIRECT ∧
    p = Slot.direct k.castSucc} = gone at h
  have hmem : forall k : Fin NDIRECT, Slot.direct k.castSucc ∈ gone := by
    intro k
    rw [← hgone]
    exact ⟨k, List.mem_finRange k, rfl⟩
  have hlast : Slot.indirect ∉ gone := by
    rw [← hgone]
    rintro ⟨k, _, heq⟩
    have hval := congrArg Fin.val (Slot.direct.inj heq)
    exact absurd hval.symm (Nat.ne_of_lt k.isLt)
  have hentries : forall j : Fin NINDIRECT, Slot.entry j ∉ gone := by
    intro j
    rw [← hgone]
    rintro ⟨k, _, heq⟩
    cases heq
  have hcases : forall k : Fin (NDIRECT + 1), Slot.direct k ∈ gone ∨ k = Fin.last NDIRECT := by
    intro k
    rcases Fin.eq_castSucc_or_eq_last k with ⟨k', rfl⟩ | hk
    · exact .inl (hmem k')
    · exact .inr hk
  have hsame : v1.d.addrs (Fin.last NDIRECT) = v.d.ind := h.kept _ hlast
  refine Program.ends_act exec_getInode ?_
  rw [hsame]
  split
  · next hzero =>
      have hskip := h.skip (p := Slot.indirect) hzero (by
        intro k heq
        rw [← Slot.direct.inj heq, hsame, hzero])
      refine ends_itruncEnd hskip ?_ ?_
      · intro p hp
        cases p with
        | direct k =>
          rcases hcases k with hk | rfl
          · exact absurd (Set.mem_insert_of_mem _ hk) hp
          · exact hzero
        | entry j => exact if_pos hzero
      · intro k
        rcases hcases k with hk | rfl
        · exact Set.mem_insert_of_mem _ hk
        · exact Set.mem_insert _ _
  · next hne =>
      have hmemind : v.d.ind ∈ v.taken := ind_taken hne
      refine Program.ends_act (exec_readBlock (hown.data _ hmemind)) ?_
      rw [h.data]
      refine Program.ends_call (ends_itruncIndirect hown hne h List.nodup_range
        (fun _ hj => List.mem_range.mp hj) (fun j _ => hentries j)) ?_
      rintro _ v2 ⟨h2, hd⟩
      have hlast2 : Slot.indirect ∉ gone ∪
          {p | exists j : Fin NINDIRECT, (j : Nat) ∈ List.range NINDIRECT ∧ p = Slot.entry j} := by
        rintro (hold | ⟨j, _, heq⟩)
        · exact hlast hold
        · cases heq
      have hbit := h2.marked hown.apart hown.marked hlast2 hne
      refine Program.ends_act (exec_bfree h2.tx (hown.data _ hmemind).2 hbit) ?_
      refine Program.ends_act (exec_update _) ?_
      refine ends_itruncEnd (h2.direct hne) ?_ ?_
      · intro p hp
        refine absurd ?_ hp
        cases p with
        | direct k =>
          rcases hcases k with hk | rfl
          · exact Set.mem_insert_of_mem _ (.inl hk)
          · exact Set.mem_insert _ _
        | entry j => exact Set.mem_insert_of_mem _ (.inr ⟨j, List.mem_range.mpr j.isLt, rfl⟩)
      · intro k
        rcases hcases k with hk | rfl
        · exact Set.mem_insert_of_mem _ (.inl hk)
        · exact Set.mem_insert _ _

end

end Part
end Fs
end Xv6
