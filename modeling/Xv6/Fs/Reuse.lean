import Xv6.Lib.Transition
import Xv6.Fs.ReadWrite
import Xv6.Fs.Truncate

/-!
# Inodes that are written, truncated and used again

The calls on inodes, one after the other, on a file system in which every block is in
at most one place.  They keep it so, and they leave no holes: every block below the
size of an inode is there.  So a read does not allocate.

If two inodes share a block, a write to one of them can make a hole in the other.
-/

namespace Xv6
namespace Fs

open Lib Function

variable {v v' : Part} {n inum : Nat}

/-!
## Consistent states
-/

structure Tidy (sb : Superblock) (data : Nat -> Bytes) (bitmap : Nat -> Bool) (d : Dinode) :
    Prop where
  mapped : forall bn, bn * BSIZE < d.size -> d.blockAt data bn ≠ 0
  apart : Apart (d.slots data)
  inside : forall b, b ∈ d.taken data -> sb.IsData b
  marked : forall b, b ∈ d.taken data -> bitmap b = true

structure Clean (sb : Superblock) (k : Disk) : Prop where
  tidy : forall n, (k.dinode n).type ≠ .free -> Tidy sb k.data k.bitmap (k.dinode n)
  separate : forall n m b, (k.dinode n).type ≠ .free -> (k.dinode m).type ≠ .free ->
    b ∈ (k.dinode n).taken k.data -> b ∈ (k.dinode m).taken k.data -> n = m
  free : forall b, b < sb.size -> k.bitmap b = false -> sb.IsData b

structure Cached {nproc : Nat} (k : Disk) (itable : Fin NINODE -> Inode nproc) : Prop where
  dev : forall i, 0 < (itable i).ref -> (itable i).dev = ROOTDEV
  unique : forall i j, 0 < (itable i).ref -> 0 < (itable j).ref ->
    (itable i).inum = (itable j).inum -> i = j
  copy : forall i, 0 < (itable i).ref -> (itable i).valid = true ->
    (itable i).d = k.dinode (itable i).inum ∧ (itable i).d.type ≠ .free

structure Consistent {nproc : Nat} (sb : Superblock) (s : Sys nproc) : Prop where
  clean : Clean sb s.disk
  cached : Cached s.disk s.itable

section

variable {sb : Superblock} {k k' : Disk} {d : Dinode}

theorem Tidy.congr {data data' : Nat -> Bytes} {bitmap bitmap' : Nat -> Bool}
    (h : Tidy sb data bitmap d)
    (hsame : forall b, b ∈ d.taken data -> bitmap' b = true ∧ data' b = data b) :
    Tidy sb data' bitmap' d := by
  have hslots : d.slots data' = d.slots data := slots_of_agree fun b hb => (hsame b hb).2
  have htaken : d.taken data' = d.taken data := congrArg Taken hslots
  constructor
  · intro bn hbn
    rw [blockAt_of_slots hslots]
    exact h.mapped bn hbn
  · rw [hslots]
    exact h.apart
  · rw [htaken]
    exact h.inside
  · rw [htaken]
    exact fun b hb => (hsame b hb).1

theorem Clean.replace (h : Clean sb k) (hold : (k.dinode n).type ≠ .free)
    (hothers : forall m, m ≠ n -> k'.dinode m = k.dinode m)
    (hkept : forall b, sb.IsData b -> k.bitmap b = true -> b ∉ (k.dinode n).taken k.data ->
      k'.bitmap b = true ∧ k'.data b = k.data b)
    (htidy : (k'.dinode n).type ≠ .free -> Tidy sb k'.data k'.bitmap (k'.dinode n))
    (hfrom : forall b, b ∈ (k'.dinode n).taken k'.data ->
      b ∈ (k.dinode n).taken k.data ∨ k.bitmap b = false)
    (hfree : forall b, b < sb.size -> k'.bitmap b = false -> sb.IsData b) : Clean sb k' := by
  have hsame : forall m, m ≠ n -> (k.dinode m).type ≠ .free -> forall b,
      b ∈ (k.dinode m).taken k.data -> k'.bitmap b = true ∧ k'.data b = k.data b := by
    intro m hm hused b hb
    refine hkept b ((h.tidy m hused).inside b hb) ((h.tidy m hused).marked b hb) ?_
    intro hb'
    exact hm (h.separate m n b hused hold hb hb')
  have htaken : forall m, m ≠ n -> (k.dinode m).type ≠ .free ->
      (k.dinode m).taken k'.data = (k.dinode m).taken k.data :=
    fun m hm hused => congrArg Taken (slots_of_agree fun b hb => (hsame m hm hused b hb).2)
  have hmine : forall m b, m ≠ n -> (k'.dinode m).type ≠ .free ->
      b ∈ (k'.dinode n).taken k'.data -> b ∉ (k'.dinode m).taken k'.data := by
    intro m b hm hused hb hb'
    rw [hothers m hm] at hused hb'
    rw [htaken m hm hused] at hb'
    rcases hfrom b hb with hown | hbit
    · exact hm (h.separate m n b hused hold hb' hown)
    · have hmarked := (h.tidy m hused).marked b hb'
      rw [hbit] at hmarked
      cases hmarked
  refine ⟨?_, ?_, hfree⟩
  · intro m hused
    by_cases hm : m = n
    · subst hm
      exact htidy hused
    · rw [hothers m hm] at hused ⊢
      exact (h.tidy m hused).congr (hsame m hm hused)
  · intro m m' b hused hused' hb hb'
    by_cases hm : m = n
    · by_cases hm' : m' = n
      · rw [hm, hm']
      · subst hm
        exact absurd hb' (hmine m' b hm' hused' hb)
    · by_cases hm' : m' = n
      · subst hm'
        exact absurd hb (hmine m b hm hused hb')
      · rw [hothers m hm] at hused hb
        rw [hothers m' hm'] at hused' hb'
        rw [htaken m hm hused] at hb
        rw [htaken m' hm' hused'] at hb'
        exact h.separate m m' b hused hused' hb hb'

theorem Clean.single {n : Nat} (hused : forall m, (k.dinode m).type ≠ .free -> m = n)
    (htidy : Tidy sb k.data k.bitmap (k.dinode n))
    (hfree : forall b, b < sb.size -> k.bitmap b = false -> sb.IsData b) : Clean sb k where
  tidy := by
    intro m hm
    rw [hused m hm]
    exact htidy
  separate := by
    intro m m' b hm hm' _ _
    rw [hused m hm, hused m' hm']
  free := hfree

theorem Clean.claim (h : Clean sb k) (hsize : d.size = 0) (haddrs : d.addrs = fun _ => 0) :
    Clean sb { k with dinode := update k.dinode n d } := by
  have hself : update k.dinode n d n = d := update_self _ _ _
  have hothers : forall m, m ≠ n -> update k.dinode n d m = k.dinode m :=
    fun m hm => update_of_ne hm _ _
  have hslots : forall p, d.slots k.data p = 0 := by
    intro p
    cases p with
    | direct k => exact congrFun haddrs k
    | entry j => exact if_pos (congrFun haddrs _)
  have hnone : forall b, b ∉ d.taken k.data := by
    intro b hb
    change b ∈ Taken (d.slots k.data) at hb
    rw [taken_empty hslots] at hb
    exact hb
  refine ⟨?_, ?_, h.free⟩
  · intro m hused
    dsimp only at hused ⊢
    by_cases hm : m = n
    · subst hm
      rw [hself]
      refine ⟨?_, apart_empty hslots, fun b hb => absurd hb (hnone b),
        fun b hb => absurd hb (hnone b)⟩
      intro bn hbn
      omega
    · rw [hothers m hm] at hused ⊢
      exact h.tidy m hused
  · intro m m' b hused hused' hb hb'
    dsimp only at hused hused' hb hb'
    by_cases hm : m = n
    · subst hm
      rw [hself] at hb
      exact absurd hb (hnone b)
    · by_cases hm' : m' = n
      · subst hm'
        rw [hself] at hb'
        exact absurd hb' (hnone b)
      · rw [hothers m hm] at hused hb
        rw [hothers m' hm'] at hused' hb'
        exact h.separate m m' b hused hused' hb hb'

end

section

variable {nproc : Nat} {sb : Superblock} {s s' : Sys nproc} {t : Fin nproc} {i : Fin NINODE}

structure EntryFits (s : Sys nproc) (i : Fin NINODE) (x : Inode nproc) : Prop where
  dev : x.dev = ROOTDEV
  unique : forall j, j ≠ i -> 0 < (s.itable j).ref -> (s.itable j).inum ≠ x.inum
  copy : x.valid = true -> x.d = s.disk.dinode x.inum ∧ x.d.type ≠ .free

theorem Cached.fits (h : Cached s.disk s.itable) (hlive : 0 < (s.itable i).ref) :
    EntryFits s i (s.itable i) where
  dev := h.dev i hlive
  unique := fun j hj hlive' heq => hj (h.unique j i hlive' hlive heq)
  copy := h.copy i hlive

section

variable (h : Consistent sb s)
include h

theorem Consistent.setInode {x : Inode nproc} (hx : 0 < x.ref -> EntryFits s i x) :
    Consistent sb (s.setInode i x) := by
  have hself : (s.setInode i x).itable i = x := update_self _ _ _
  have hother : forall j, j ≠ i -> (s.setInode i x).itable j = s.itable j :=
    fun j hj => update_of_ne hj _ _
  refine ⟨h.clean, ?_, ?_, ?_⟩
  · intro j hlive
    rcases eq_or_ne j i with rfl | hj
    · rw [hself] at hlive ⊢
      exact (hx hlive).dev
    · rw [hother j hj] at hlive ⊢
      exact h.cached.dev j hlive
  · intro j j' hlive hlive' heq
    rcases eq_or_ne j i with rfl | hj
    · rcases eq_or_ne j' j with rfl | hj'
      · rfl
      · rw [hself] at hlive heq
        rw [hother j' hj'] at hlive' heq
        exact absurd heq.symm ((hx hlive).unique j' hj' hlive')
    · rcases eq_or_ne j' i with rfl | hj'
      · rw [hself] at hlive' heq
        rw [hother j hj] at hlive heq
        exact absurd heq ((hx hlive').unique j hj hlive)
      · rw [hother j hj] at hlive heq
        rw [hother j' hj'] at hlive' heq
        exact h.cached.unique j j' hlive hlive' heq
  · intro j hlive hvalid
    rcases eq_or_ne j i with rfl | hj
    · rw [hself] at hlive hvalid ⊢
      exact (hx hlive).copy hvalid
    · rw [hother j hj] at hlive hvalid ⊢
      exact h.cached.copy j hlive hvalid

theorem Consistent.touch (hlive : 0 < (s.itable i).ref) {x : Inode nproc}
    (hdev : x.dev = (s.itable i).dev) (hinum : x.inum = (s.itable i).inum)
    (hd : x.d = (s.itable i).d) (hvalid : x.valid = true -> (s.itable i).valid = true) :
    Consistent sb (s.setInode i x) := by
  have hfits := h.cached.fits hlive
  refine h.setInode fun _ => ⟨?_, ?_, ?_⟩
  · rw [hdev]
    exact hfits.dev
  · rw [hinum]
    exact hfits.unique
  · rw [hd, hinum]
    exact fun hx => hfits.copy (hvalid hx)

/-!
## One action
-/

theorem Consistent.iget (hrun : s.iget ROOTDEV inum = .ok (i, s')) : Consistent sb s' := by
  unfold Sys.iget at hrun
  split at hrun
  · next j hfind =>
      cases hrun
      have hfound := List.find?_some hfind
      exact h.touch (of_decide_eq_true hfound).1 rfl rfl rfl id
  · next hnone =>
      split at hrun
      · next j hfind =>
          cases hrun
          refine h.setInode fun _ => ⟨rfl, ?_, nofun⟩
          intro j' _ hlive heq
          have hno := List.find?_eq_none.mp hnone j' (List.mem_finRange j')
          exact hno (decide_eq_true ⟨hlive, h.cached.dev j' hlive, heq⟩)
      · cases hrun

theorem Consistent.acquiresleep (hrun : s.acquiresleep t i = .ok s') :
    Consistent sb s' ∧ 0 < (s'.itable i).ref := by
  unfold Sys.acquiresleep at hrun
  split at hrun
  · cases hrun
  · next href =>
      split at hrun
      · cases hrun
        have hlive : 0 < (s.itable i).ref := by omega
        refine ⟨h.touch hlive rfl rfl rfl id, ?_⟩
        change 0 < (update s.itable i _ i).ref
        rw [update_self]
        exact hlive
      · cases hrun

theorem Consistent.fill (hlive : 0 < (s.itable i).ref)
    (hrun : s.fill i = .ok s') : Consistent sb s' := by
  have hfits := h.cached.fits hlive
  unfold Sys.fill at hrun
  split at hrun
  · cases hrun
    exact h
  · split at hrun
    · cases hrun
    · next hused =>
        cases hrun
        exact h.setInode fun _ => ⟨hfits.dev, hfits.unique, fun _ => ⟨rfl, hused⟩⟩

theorem Consistent.iunlock (hrun : s.iunlock t i = .ok s') :
    Consistent sb s' := by
  unfold Sys.iunlock at hrun
  split at hrun
  · cases hrun
  · next hheld =>
      cases hrun
      exact h.touch (by omega) rfl rfl rfl id

theorem Consistent.claim {type : FileType} {found : Bool}
    (hrun : s.claim sb t inum type = .ok (found, s')) : Consistent sb s' := by
  unfold Sys.claim at hrun
  split at hrun
  · next hfree =>
      cases hlog : (s.setDinode inum { Dinode.zero with type := type }).logWrite t
          (sb.iblock inum) with
      | error e =>
        rw [hlog] at hrun
        cases hrun
      | ok s1 =>
        rw [hlog] at hrun
        rcases Sys.logWrite_eq hlog with ⟨ops, lh, rfl⟩
        cases hrun
        refine ⟨h.clean.claim rfl rfl, h.cached.dev, h.cached.unique, ?_⟩
        intro i hlive hvalid
        rcases h.cached.copy i hlive hvalid with ⟨hcopy, hused⟩
        refine ⟨?_, hused⟩
        have hne : (s.itable i).inum ≠ inum := by
          rintro rfl
          rw [hcopy] at hused
          exact hused hfree
        exact hcopy.trans (update_of_ne hne _ _).symm
  · cases hrun
    exact h

end

/-!
## The part behind an inode
-/

/-- From `v` to `v'` the inode has been changed, and no block but its own and free ones. -/
structure Confined (sb : Superblock) (v v' : Part) : Prop where
  copy : v'.copy = v'.d
  tidy : v'.d.type ≠ .free -> Tidy sb v'.data v'.bitmap v'.d
  others : forall b, v.bitmap b = true -> b ∉ v.taken -> v'.bitmap b = true ∧ v'.data b = v.data b
  origin : forall b, b ∈ v'.taken -> b ∈ v.taken ∨ v.bitmap b = false
  free : forall b, b < sb.size -> v'.bitmap b = false -> sb.IsData b

/-- An inode in memory that is the one on disk. -/
def Loaded (s : Sys nproc) (i : Fin NINODE) : Prop :=
  0 < (s.itable i).ref ∧ (s.itable i).valid = true

instance (s : Sys nproc) (i : Fin NINODE) : Decidable (Loaded s i) :=
  inferInstanceAs (Decidable (_ ∧ _))

section

variable (h : Consistent sb s) (hi : Loaded s i)
include h hi

theorem Consistent.tidy :
    Tidy sb s.disk.data s.disk.bitmap (s.itable i).d := by
  rcases h.cached.copy i hi.1 hi.2 with ⟨hcopy, hused⟩
  rw [hcopy] at hused ⊢
  exact h.clean.tidy _ hused

theorem Consistent.owned (htx : s.ops t ≠ none) :
    (s.part t i).Owned sb where
  tx := htx
  apart := (h.tidy hi).apart
  data := (h.tidy hi).inside
  marked := (h.tidy hi).marked
  free := h.clean.free

theorem Consistent.noHoles : (s.part t i).NoHoles :=
  (h.tidy hi).mapped

theorem Consistent.put_clean (hv : Confined sb (s.part t i) v) : Clean sb (s.put t i v).disk := by
  rcases h.cached.copy i hi.1 hi.2 with ⟨hcopy, hused⟩
  have hself : (s.put t i v).disk.dinode (s.itable i).inum = v.d :=
    (update_self _ _ _).trans hv.copy
  have htaken : (s.disk.dinode (s.itable i).inum).taken s.disk.data = (s.part t i).taken := by
    rw [← hcopy]
    rfl
  refine h.clean.replace (n := (s.itable i).inum) ?_ ?_ ?_ ?_ ?_ hv.free
  · rw [← hcopy]
    exact hused
  · intro m hm
    exact update_of_ne hm _ _
  · rw [htaken]
    exact fun b _ => hv.others b
  · rw [hself]
    exact hv.tidy
  · rw [hself, htaken]
    exact hv.origin

theorem Consistent.put_others {j : Fin NINODE}
    (hj : j ≠ i) (hlive : 0 < (s.itable j).ref) (hvalid : (s.itable j).valid = true) :
    (s.itable j).d = (s.put t i v).disk.dinode (s.itable j).inum ∧ (s.itable j).d.type ≠ .free := by
  rcases h.cached.copy j hlive hvalid with ⟨hcopy, hused⟩
  refine ⟨?_, hused⟩
  have hne : (s.itable j).inum ≠ (s.itable i).inum :=
    fun heq => hj (h.cached.unique j i hlive hi.1 heq)
  exact hcopy.trans (update_of_ne hne _ _).symm

theorem Consistent.put (hv : Confined sb (s.part t i) v) (htype : v.d.type = (s.itable i).d.type) :
    Consistent sb (s.put t i v) := by
  have hself : (s.put t i v).itable i = { s.itable i with d := v.d } := update_self _ _ _
  have hother : forall j, j ≠ i -> (s.put t i v).itable j = s.itable j :=
    fun j hj => update_of_ne hj _ _
  have href : forall j, ((s.put t i v).itable j).ref = (s.itable j).ref := by
    intro j
    rcases eq_or_ne j i with rfl | hj
    · rw [hself]
    · rw [hother j hj]
  have hkey : forall j, ((s.put t i v).itable j).inum = (s.itable j).inum ∧
      ((s.put t i v).itable j).dev = (s.itable j).dev := by
    intro j
    rcases eq_or_ne j i with rfl | hj
    · rw [hself]
      exact ⟨rfl, rfl⟩
    · rw [hother j hj]
      exact ⟨rfl, rfl⟩
  refine ⟨h.put_clean hi hv, ?_, ?_, ?_⟩
  · intro j hlive
    rw [href] at hlive
    rw [(hkey j).2]
    exact h.cached.dev j hlive
  · intro j j' hlive hlive' heq
    rw [href] at hlive hlive'
    rw [(hkey j).1, (hkey j').1] at heq
    exact h.cached.unique j j' hlive hlive' heq
  · intro j hlive hvalid
    rcases eq_or_ne j i with rfl | hj
    · have hcell : (s.put t j v).disk.dinode (s.itable j).inum = v.copy :=
        update_self _ _ _
      rw [hself]
      refine ⟨?_, ?_⟩
      · exact (hcell.trans hv.copy).symm
      · change v.d.type ≠ .free
        rw [htype]
        exact (h.cached.copy j hi.1 hi.2).2
    · rw [hother j hj] at hlive hvalid ⊢
      exact h.put_others hi hj hlive hvalid

theorem Consistent.put_freed
    (hv : Confined sb (s.part t i) v) {x : Inode nproc} (hdev : x.dev = (s.itable i).dev)
    (hinum : x.inum = (s.itable i).inum) (hvalid : x.valid = false) :
    Consistent sb ((s.put t i v).setInode i x) := by
  have hself : ((s.put t i v).setInode i x).itable i = x := update_self _ _ _
  have hother : forall j, j ≠ i -> ((s.put t i v).setInode i x).itable j = s.itable j :=
    fun j hj => (update_of_ne hj _ _).trans (update_of_ne hj _ _)
  refine ⟨h.put_clean hi hv, ?_, ?_, ?_⟩
  · intro j hlive
    rcases eq_or_ne j i with rfl | hj
    · rw [hself, hdev]
      exact h.cached.dev j hi.1
    · rw [hother j hj] at hlive ⊢
      exact h.cached.dev j hlive
  · intro j j' hlive hlive' heq
    rcases eq_or_ne j i with rfl | hj
    · rcases eq_or_ne j' j with rfl | hj'
      · rfl
      · rw [hself, hinum] at heq
        rw [hother j' hj'] at hlive' heq
        exact h.cached.unique j j' hi.1 hlive' heq
    · rcases eq_or_ne j' i with rfl | hj'
      · rw [hself, hinum] at heq
        rw [hother j hj] at hlive heq
        exact h.cached.unique j j' hlive hi.1 heq
      · rw [hother j hj] at hlive heq
        rw [hother j' hj'] at hlive' heq
        exact h.cached.unique j j' hlive hlive' heq
  · intro j hlive hvalid'
    rcases eq_or_ne j i with rfl | hj
    · rw [hself, hvalid] at hvalid'
      cases hvalid'
    · rw [hother j hj] at hlive hvalid' ⊢
      exact h.put_others (t := t) hi hj hlive hvalid'

end

theorem confined_written {src : Src} {off : Nat} {r : Int} {bytes extra : List UInt8}
    (hno : v.NoHoles) (hoff : off <= v.d.size)
    (h : Part.Written sb src n off v r v' bytes extra) : Confined sb v v' where
  copy := h.copy_eq
  tidy := by
    intro _
    refine ⟨h.wrote.noHoles hno hoff ?_, h.owned.apart, h.owned.data, h.owned.marked⟩
    rw [h.size_eq, List.length_append]
    omega
  others := fun b hbit hb => ⟨(h.wrote.bitmap b).mpr (.inl hbit), h.wrote.apart b hbit hb⟩
  origin := by
    rintro b ⟨hne, p, rfl⟩
    by_cases hp : v.slots p = 0
    · exact .inr (h.wrote.fresh p hp hne).1
    · refine .inl ⟨hne, p, ?_⟩
      exact (h.wrote.kept p hp).symm
  free := h.owned.free

theorem confined_empty (hown : v.Owned sb) (haddrs : v'.d.addrs = fun _ => 0)
    (hsize : v'.d.size = 0) (hcopy : v'.copy = v'.d) (hdata : v'.data = v.data)
    (hbits : forall b, v'.bitmap b = true <-> v.bitmap b = true ∧ b ∉ v.taken) :
    Confined sb v v' := by
  have hslots : forall p, v'.slots p = 0 := by
    intro p
    cases p with
    | direct k => exact congrFun haddrs k
    | entry j => exact if_pos (congrFun haddrs _)
  have hnone : forall b, b ∉ v'.taken := by
    intro b hb
    change b ∈ Taken v'.slots at hb
    rw [taken_empty hslots] at hb
    exact hb
  refine ⟨hcopy, fun _ => ⟨?_, apart_empty hslots, ?_, ?_⟩, ?_, ?_, ?_⟩
  · intro bn hbn
    omega
  · exact fun b hb => absurd hb (hnone b)
  · exact fun b hb => absurd hb (hnone b)
  · exact fun b hbit hb => ⟨(hbits b).mpr ⟨hbit, hb⟩, congrFun hdata b⟩
  · exact fun b hb => absurd hb (hnone b)
  · intro b hlt hbit
    by_cases hb : b ∈ v.taken
    · exact hown.data b hb
    · refine hown.free b hlt ?_
      by_contra hne
      have htrue := (hbits b).mpr ⟨Bool.eq_true_of_not_eq_false hne, hb⟩
      rw [hbit] at htrue
      cases htrue

theorem confined_truncated (hown : v.Owned sb) (h : Part.Truncated sb inum v v') :
    Confined sb v v' :=
  confined_empty hown (congrArg Dinode.addrs h.d) (congrArg Dinode.size h.d) h.copy h.data h.bitmap

theorem confined_freed (hown : v.Owned sb) (h : Part.Truncated sb inum v v') (b : Nat) :
    Confined sb v (Part.log { v' with
      d := { v'.d with type := .free }
      copy := { v'.d with type := .free } } b) :=
  confined_empty hown (congrArg Dinode.addrs h.d) (congrArg Dinode.size h.d) rfl h.data h.bitmap

theorem confined_linked (hown : v.Owned sb) (hno : v.NoHoles) (x : Int) (b : Nat) :
    Confined sb v (Part.log { v with
      d := (Update.nlinkAdd x).apply v.d
      copy := (Update.nlinkAdd x).apply v.d } b) where
  copy := rfl
  tidy := fun _ => ⟨hno, hown.apart, hown.data, hown.marked⟩
  others := fun _ hbit _ => ⟨hbit, rfl⟩
  origin := fun _ hb => .inl hb
  free := hown.free

/-!
## Calls
-/

/-- `link` stands for the changes of `nlink` in `sys_link`, `sys_unlink` and `create`. -/
inductive InodeOp where
  | beginOp
  | endOp
  | iget (inum : Nat)
  | ilock (i : Fin NINODE)
  | iunlock (i : Fin NINODE)
  | ialloc (type : FileType)
  | writei (i : Fin NINODE) (src : Src) (off n : Nat)
  | itrunc (i : Fin NINODE)
  | link (i : Fin NINODE) (x : Int)
  | iput (i : Fin NINODE)

def InodeOp.run (sb : Superblock) (t : Fin nproc) (s : Sys nproc) :
    InodeOp -> Except Stop (Sys nproc)
  | .beginOp => after (perform .beginOp)
  | .endOp => after (perform .endOp)
  | .iget inum => after (perform (.iget ROOTDEV inum))
  | .ilock i => after (Fs.ilock i)
  | .iunlock i => after (perform (.iunlock i))
  | .ialloc type => after (Fs.ialloc sb ROOTDEV type)
  | .writei i src off n => after (Fs.writei sb i src off n)
  | .itrunc i => after (Fs.itrunc i)
  | .link i x => after (do
      perform (.update i (.nlinkAdd x))
      perform (.iupdate i))
  | .iput i => after (Fs.iput i)
where
  after {alpha : Type} (p : Prog alpha) : Except Stop (Sys nproc) :=
    (p.run (Sys.exec sb t) s).map (·.2)

def InodeOp.Ready (t : Fin nproc) (s : Sys nproc) : InodeOp -> Prop
  | .writei i _ off n => s.ops t ≠ none ∧ Loaded s i ∧ off < 2 ^ 32 ∧ n < 2 ^ 32
  | .itrunc i => s.ops t ≠ none ∧ Loaded s i
  | .link i _ => s.ops t ≠ none ∧ Loaded s i
  | .iput i => s.ops t ≠ none ∧ 0 < (s.itable i).ref
  | _ => True

instance (t : Fin nproc) (s : Sys nproc) (c : InodeOp) : Decidable (c.Ready t s) :=
  match c with
  | .writei i _ off n =>
    inferInstanceAs (Decidable (s.ops t ≠ none ∧ Loaded s i ∧ off < 2 ^ 32 ∧ n < 2 ^ 32))
  | .itrunc i => inferInstanceAs (Decidable (s.ops t ≠ none ∧ Loaded s i))
  | .link i _ => inferInstanceAs (Decidable (s.ops t ≠ none ∧ Loaded s i))
  | .iput i => inferInstanceAs (Decidable (s.ops t ≠ none ∧ 0 < (s.itable i).ref))
  | .beginOp => .isTrue trivial
  | .endOp => .isTrue trivial
  | .iget _ => .isTrue trivial
  | .ilock _ => .isTrue trivial
  | .iunlock _ => .isTrue trivial
  | .ialloc _ => .isTrue trivial

def inodeOps (sb : Superblock) (nproc : Nat) : System (Sys nproc) (Fin nproc × InodeOp) where
  init := Consistent sb
  step := fun s l s' => l.2.run sb l.1 s = .ok s'

def Keeps (sb : Superblock) (t : Fin nproc) {alpha : Type} (p : Prog alpha)
    (s : Sys nproc) : Prop :=
  p.ends (Sys.exec sb t) (fun _ => True) (fun _ s' => Consistent sb s') s

theorem Keeps.after {alpha : Type} {p : Prog alpha} (h : Keeps sb t p s)
    (hrun : InodeOp.run.after sb t s p = .ok s') : Consistent sb s' := by
  unfold InodeOp.run.after at hrun
  unfold Keeps Program.ends at h
  split at h
  · next x s1 hp =>
      rw [hp] at hrun
      cases hrun
      exact h
  · next e hp =>
      rw [hp] at hrun
      cases hrun

theorem keeps_perform {a : Act}
    (h : forall r s', Sys.exec sb t a s = .ok (r, s') -> Consistent sb s') :
    Keeps sb t (perform a) s := by
  unfold Keeps Program.ends
  rw [perform, Program.perform, Program.run]
  cases hexec : Sys.exec sb t a s with
  | error e => trivial
  | ok rs => exact h rs.1 rs.2 hexec

theorem keeps_writei {src : Src} {off : Nat} (hsb : sb.Valid) (h : Consistent sb s)
    (htx : s.ops t ≠ none) (hi : Loaded s i) (hoff : off < 2 ^ 32) (hn : n < 2 ^ 32) :
    Keeps sb t (writei sb i src off n) s := by
  rcases writei_cases (s := s) (i := i) off n with hbad | ⟨hle, hmax⟩
  · refine Program.ends_mono (Part.ends_writei_rejected (s.shows_exec t i) hoff hn hbad) ?_
    rintro _ _ ⟨rfl, rfl⟩
    exact h
  · refine Program.ends_mono (Sys.ends_writei _ _ hsb (h.owned hi htx) hle hmax
      fun _ _ _ => trivial) ?_
    rintro r _ ⟨v, bytes, extra, rfl, hw⟩
    refine h.put hi (confined_written (h.noHoles hi) hle hw) ?_
    rw [hw.wrote.fields]
    rfl

theorem keeps_itrunc (h : Consistent sb s) (htx : s.ops t ≠ none) (hi : Loaded s i) :
    Keeps sb t (itrunc i) s := by
  have hown := h.owned hi htx
  refine Program.ends_mono (Sys.ends_part _ (Part.ends_itrunc hown) fun _ _ _ _ _ _ => trivial) ?_
  rintro _ _ ⟨v, rfl, hv⟩
  refine h.put hi (confined_truncated hown hv) ?_
  rw [hv.d]
  rfl

theorem keeps_link (h : Consistent sb s) (htx : s.ops t ≠ none) (hi : Loaded s i) (x : Int) :
    Keeps sb t (do
      perform (.update i (.nlinkAdd x))
      perform (.iupdate i)) s := by
  have hown := h.owned hi htx
  have hends : Part.Ends sb i (s.itable i).inum (s.others t)
      (do
        perform (.update i (.nlinkAdd x))
        perform (.iupdate i) : Prog Unit)
      (fun _ v => v = Part.log { s.part t i with
        d := (Update.nlinkAdd x).apply (s.part t i).d
        copy := (Update.nlinkAdd x).apply (s.part t i).d } (sb.iblock (s.itable i).inum))
      (s.part t i) := by
    refine Program.ends_act (Part.exec_update _) ?_
    exact Program.ends_perform (Part.exec_iupdate hown.tx) rfl
  refine Program.ends_mono (Sys.ends_part _ hends fun _ _ _ _ _ _ => trivial) ?_
  rintro _ _ ⟨v, rfl, rfl⟩
  exact h.put hi (confined_linked hown (h.noHoles hi) x _) rfl

theorem keeps_iallocLoop {type : FileType} (h : Consistent sb s) :
    Keeps sb t (iallocLoop ROOTDEV type inum n) s := by
  induction n generalizing inum s with
  | zero => exact Program.ends_ret h
  | succ n ih =>
    unfold iallocLoop
    cases hclaim : Sys.exec sb t (.claim inum type) s with
    | error e => exact Program.ends_stop hclaim trivial
    | ok rs =>
      have hs1 : Consistent sb rs.2 := h.claim hclaim
      refine Program.ends_act hclaim ?_
      split
      · refine Program.ends_call (keeps_perform fun i s2 hget => hs1.iget hget) ?_
        intro _ s2 hs2
        exact Program.ends_ret hs2
      · exact ih hs1

theorem keeps_ilock (h : Consistent sb s) : Keeps sb t (ilock i) s := by
  unfold ilock
  cases hlock : s.acquiresleep t i with
  | error e =>
    refine Program.ends_stop (e := e) ?_ trivial
    change (s.acquiresleep t i).map _ = _
    rw [hlock]
    rfl
  | ok s1 =>
    have hexec : Sys.exec sb t (.acquiresleep i) s = .ok ((), s1) := by
      change (s.acquiresleep t i).map _ = _
      rw [hlock]
      rfl
    rcases h.acquiresleep hlock with ⟨hs1, hlive⟩
    refine Program.ends_act hexec (keeps_perform ?_)
    intro _ s2 hfill
    rcases map_eq_ok.mp hfill with ⟨s3, hs3, heq⟩
    cases heq
    exact hs1.fill hlive hs3

theorem ends_iput_last (tol : Stop -> Prop) (h : Consistent sb s) (htx : s.ops t ≠ none)
    (hlast : (s.itable i).ref = 1 ∧ (s.itable i).valid = true ∧ (s.itable i).d.nlink = 0)
    (hfree : (s.itable i).lock = none)
    (htol : forall v e, Part.Truncated sb (s.itable i).inum (s.part t i) v ->
      LOGBLOCKS <= v.lh.length -> e.Full -> tol e) :
    (iput i).ends (Sys.exec sb t) tol (fun _ s' => exists v,
      Part.Truncated sb (s.itable i).inum (s.part t i) v ∧ s' = (s.put t i (Part.log { v with
          d := { v.d with type := .free }
          copy := { v.d with type := .free } } (sb.iblock (s.itable i).inum))).setInode i
        { s.itable i with
          ref := (s.itable i).ref - 1
          lock := none
          valid := false
          d := { v.d with type := .free } }) s := by
  have hi : Loaded s i := ⟨hlast.1 ▸ Int.one_pos, hlast.2.1⟩
  generalize hs1 : s.setInode i { s.itable i with lock := some t } = s1
  have hexec : Sys.exec sb t (.iputFirst i) s = .ok (true, s1) := by
    change s.iputFirst t i = _
    unfold Sys.iputFirst
    rw [if_pos hlast, if_pos hfree, hs1]
  have hentry : s1.itable i = { s.itable i with lock := some t } := by
    rw [← hs1]
    exact update_self _ _ _
  have hpart : s1.part t i = s.part t i := by
    unfold Sys.part
    rw [hentry, ← hs1]
    rfl
  have hinum : (s1.itable i).inum = (s.itable i).inum := by
    rw [hentry]
  have hown := h.owned hi htx
  rw [← hpart] at hown htol
  rw [← hinum] at htol
  unfold iput
  refine Program.ends_act hexec ?_
  rw [if_pos rfl]
  refine Program.ends_call (Sys.ends_part tol (Part.ends_itrunc hown) fun _ => htol) ?_
  rintro _ _ ⟨v, rfl, hv⟩
  refine Sys.ends_put (Part.exec_update _) (fun e => htol v e hv) ?_
  refine Sys.ends_put (Part.exec_iupdate hv.tx) (fun e => htol v e hv) ?_
  refine Program.ends_act (r := ()) rfl ?_
  refine Program.ends_act (r := ()) rfl ?_
  refine Program.ends_perform rfl ⟨v, hpart ▸ hinum ▸ hv, ?_⟩
  rw [← hs1]
  simp only [Sys.releasesleep, Sys.iputLast, Sys.setInode, Sys.put, update_self, update_idem]
  rfl

theorem keeps_iput (h : Consistent sb s) (htx : s.ops t ≠ none) (hlive : 0 < (s.itable i).ref) :
    Keeps sb t (iput i) s := by
  by_cases hlast : (s.itable i).ref = 1 ∧ (s.itable i).valid = true ∧ (s.itable i).d.nlink = 0
  · by_cases hfree : (s.itable i).lock = none
    · have hi : Loaded s i := ⟨hlive, hlast.2.1⟩
      refine Program.ends_mono (ends_iput_last _ h htx hlast hfree fun _ _ _ _ _ => trivial) ?_
      rintro _ _ ⟨v, hv, rfl⟩
      exact h.put_freed hi (confined_freed (h.owned hi htx) hv _) rfl rfl rfl
    · refine Program.ends_stop (e := .panic .schedLocks) ?_ trivial
      change s.iputFirst t i = _
      unfold Sys.iputFirst
      rw [if_pos hlast, if_neg hfree]
  · have hexec : Sys.exec sb t (.iputFirst i) s =
        .ok (false, s.setInode i { s.itable i with ref := (s.itable i).ref - 1 }) := by
      change s.iputFirst t i = _
      unfold Sys.iputFirst
      rw [if_neg hlast]
    refine Program.ends_act hexec ?_
    exact Program.ends_ret (h.touch hlive rfl rfl rfl id)

theorem keeps_op {c : InodeOp} (hsb : sb.Valid) (h : Consistent sb s) (hready : c.Ready t s)
    (hrun : c.run sb t s = .ok s') : Consistent sb s' := by
  cases c with
  | beginOp =>
    refine Keeps.after (keeps_perform ?_) hrun
    intro _ s1 hexec
    rcases map_eq_ok.mp hexec with ⟨s2, hs2, heq⟩
    cases heq
    rw [Sys.beginOp_eq hs2]
    exact ⟨h.clean, h.cached⟩
  | endOp =>
    refine Keeps.after (keeps_perform ?_) hrun
    intro _ s1 hexec
    cases hexec
    rcases s.endOp_eq t with ⟨lh, heq⟩
    rw [heq]
    exact ⟨h.clean, h.cached⟩
  | iget inum =>
    refine Keeps.after (keeps_perform ?_) hrun
    intro _ s1 hget
    exact h.iget hget
  | ilock i => exact Keeps.after (keeps_ilock h) hrun
  | iunlock i =>
    refine Keeps.after (keeps_perform ?_) hrun
    intro _ s1 hexec
    rcases map_eq_ok.mp hexec with ⟨s2, hs2, heq⟩
    cases heq
    exact h.iunlock hs2
  | ialloc type => exact Keeps.after (keeps_iallocLoop h) hrun
  | writei i src off n =>
    rcases hready with ⟨htx, hi, hoff, hn⟩
    exact Keeps.after (keeps_writei hsb h htx hi hoff hn) hrun
  | itrunc i => exact Keeps.after (keeps_itrunc h hready.1 hready.2) hrun
  | link i x => exact Keeps.after (keeps_link h hready.1 hready.2 x) hrun
  | iput i => exact Keeps.after (keeps_iput h hready.1 hready.2) hrun

/-!
## Reads
-/

structure ReadsOnly (sb : Superblock) (s : Sys nproc) : Prop where
  mapped : forall n, (s.disk.dinode n).type ≠ .free -> forall bn,
    bn * BSIZE < (s.disk.dinode n).size ->
    (s.disk.dinode n).blockAt s.disk.data bn ≠ 0 ∧
      s.disk.bitmap ((s.disk.dinode n).blockAt s.disk.data bn) = true
  loaded : forall i, Loaded s i -> (s.itable i).d = s.disk.dinode (s.itable i).inum
  reads : forall (ops : Fin nproc -> Option (List Nat)) (t : Fin nproc) (i : Fin NINODE),
    Loaded s i -> forall (dst : Dst) (off n : Nat), n < 2 ^ 32 ->
    exists r, (readi sb i dst off n).run (Sys.strict sb t) { s with ops := ops } =
        .ok (r, { s with ops := ops }) ∧
      (readi sb i dst off n).run (Sys.exec sb t) { s with ops := ops } =
        .ok (r, { s with ops := ops })

theorem reading_never_allocates (hsb : sb.Valid)
    (hreach : (inodeOps sb nproc).ReachableVia (fun s l => l.2.Ready l.1 s) s) :
    ReadsOnly sb s := by
  have h : Consistent sb s := by
    refine hreach.invariant (fun _ hs => hs) ?_
    intro s l s' hs hready hstep
    exact keeps_op hsb hs hready hstep
  refine ⟨?_, fun i hi => (h.cached.copy i hi.1 hi.2).1, ?_⟩
  · intro n hused bn hbn
    have hne := (h.clean.tidy n hused).mapped bn hbn
    exact ⟨hne, (h.clean.tidy n hused).marked _ (blockAt_taken hne)⟩
  · intro ops t i hi dst off n hn
    have h' : Consistent sb { s with ops := ops } := ⟨h.clean, h.cached⟩
    have hi' : Loaded { s with ops := ops } i := hi
    rcases readi_strict dst off (h'.tidy hi').inside (h'.noHoles (t := t) hi') hn with
      ⟨r, hstrict, hexec, _⟩
    exact ⟨r, hstrict, hexec⟩

end

def oneInode : Sys 1 :=
  { oneFile with
    disk :=
      { oneFile.disk with
        dinode := fun n => if n = 2 then (oneFile.itable 0).d else Dinode.zero }
    itable := fun i => if i = 0 then { oneFile.itable 0 with lock := none }
      else { oneFile.itable 0 with ref := 0 } }

theorem one_used {d : Dinode} (m : Nat)
    (h : (if m = 2 then d else Dinode.zero).type ≠ .free) : m = 2 := by
  by_contra hne
  exact h (congrArg Dinode.type (if_neg hne))

theorem oneInode_live {i : Fin NINODE} (h : 0 < (oneInode.itable i).ref) : i = 0 := by
  by_contra hne
  have hentry : oneInode.itable i = { oneFile.itable 0 with ref := 0 } := if_neg hne
  rw [hentry] at h
  exact absurd h (by decide)

theorem oneInode_consistent : Consistent tinyDisk oneInode where
  clean := .single one_used
    ⟨oneFile_noHoles, oneFile_owned.apart, oneFile_owned.data, oneFile_owned.marked⟩
    oneFile_owned.free
  cached :=
    {
      dev := by
        intro i hi
        rw [oneInode_live hi]
        rfl
      unique := by
        intro i j hi hj _
        rw [oneInode_live hi, oneInode_live hj]
      copy := by
        intro i hi _
        rw [oneInode_live hi]
        exact ⟨rfl, by decide⟩
    }

/-- The file is written to, loses its link and its last reference, and its inode and its block are
used again. -/
theorem reading_never_allocates_again :
    exists s, ((inodeOps tinyDisk 1).ReachableVia fun s l => l.2.Ready l.1 s) s ∧ Loaded s 0 ∧
      (s.itable 0).d.size = 3 ∧ ReadsOnly tinyDisk s := by
  have hcheck : (System.run (fun s l => (InodeOp.run tinyDisk l.1 s l.2).toOption)
      (fun s l => l.2.Ready l.1 s) oneInode
      [(0, .ilock 0), (0, .writei 0 (Src.kernel [7, 8]) 4 2), (0, .link 0 (-1)),
        (0, .iunlock 0), (0, .iput 0), (0, .ialloc .file), (0, .ilock 0),
        (0, .writei 0 (Src.kernel [1, 2, 3]) 0 3), (0, .endOp)]).any (fun s =>
          decide (Loaded s 0 ∧ (s.itable 0).d.size = 3)) = true := by
    decide +kernel
  have hinit : (inodeOps tinyDisk 1).ReachableVia (fun s l => l.2.Ready l.1 s) oneInode :=
    .init oneInode_consistent
  obtain ⟨s, hreach, hcheck⟩ := hinit.run_any (fun _ _ _ => toOption_eq_some.mp) hcheck
  have hs := of_decide_eq_true hcheck
  exact ⟨s, hreach, hs.1, hs.2, reading_never_allocates tinyDisk_valid hreach⟩

/-!
## A shared block

Block 52 is the only block of inode 1 and the indirect block of inode 2.
-/

def sharing : Sys 1 :=
  { oneFile with
    disk :=
      {
        dinode := fun n => if n = 1 then small else if n = 2 then large else Dinode.zero
        bitmap := fun b => b < 54
        data := fun b j => if b = 52 ∧ j = 0 then 53 else 0
      }
    itable := fun i =>
      { oneFile.itable 0 with
        inum := if i = 0 then 1 else 2
        ref := if i.val < 2 then 1 else 0
        d := if i = 0 then small else large } }
where
  small : Dinode :=
    { Dinode.zero with
      type := .file
      nlink := 1
      size := 4
      addrs := fun k => if k = 0 then 52 else 0 }
  large : Dinode :=
    { Dinode.zero with
      type := .file
      nlink := 1
      size := 12289
      addrs := fun k => 40 + k.val }

/-- There are no holes, but four bytes written to inode 1 make one in inode 2, and a read of it
outside of a transaction panics. -/
theorem shared_block_makes_hole :
    (forall n bn, bn * BSIZE < (sharing.disk.dinode n).size ->
      (sharing.disk.dinode n).blockAt sharing.disk.data bn ≠ 0 ∧
        sharing.disk.bitmap ((sharing.disk.dinode n).blockAt sharing.disk.data bn) = true) ∧
    exists s, (writei tinyDisk 0 (Src.kernel [0, 0, 0, 0]) 0 4).run (Sys.exec tinyDisk 0) sharing =
        .ok (4, s) ∧
      (readi tinyDisk 1 Dst.kernel 12288 1).run (Sys.exec tinyDisk 0)
        { s with ops := fun _ => none } = .error (.panic .logWriteOutside) := by
  refine ⟨?_, ?_⟩
  · intro n bn hbn
    by_cases h1 : n = 1
    · subst h1
      change bn * 1024 < 4 at hbn
      have hzero : bn = 0 := by omega
      subst hzero
      decide
    by_cases h2 : n = 2
    · subst h2
      change bn * 1024 < 12289 at hbn
      have hlt : bn < 13 := by omega
      clear hbn
      revert bn
      decide +kernel
    · have hnone : sharing.disk.dinode n = Dinode.zero := by
        change (if n = 1 then _ else if n = 2 then _ else _) = _
        rw [if_neg h1, if_neg h2]
      rw [hnone] at hbn
      exact absurd hbn (Nat.not_lt_zero _)
  · have hcheck : (match (writei tinyDisk 0 (Src.kernel [0, 0, 0, 0]) 0 4).run
          (Sys.exec tinyDisk 0) sharing with
        | .ok (r, s) =>
          decide (r = 4) &&
            match (readi tinyDisk 1 Dst.kernel 12288 1).run (Sys.exec tinyDisk 0)
              { s with ops := fun _ => none } with
            | .error e => decide (e = .panic .logWriteOutside)
            | .ok _ => false
        | .error _ => false) = true := by
      decide +kernel
    split at hcheck
    · next r s hwrite =>
        rw [Bool.and_eq_true] at hcheck
        rcases hcheck with ⟨hr, hread⟩
        split at hread
        · next e hrun =>
            refine ⟨s, ?_, ?_⟩
            · rw [hwrite, of_decide_eq_true hr]
            · rw [hrun, of_decide_eq_true hread]
        · cases hread
    · cases hcheck

end Fs
end Xv6
