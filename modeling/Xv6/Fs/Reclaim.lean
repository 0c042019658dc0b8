import Xv6.Fs.Reuse

/-!
# Inodes without links

After a crash there may be inodes that have lost their last link and that nobody has open.
`fsinit` calls `ireclaim` on the disk that the recovery of the log has left, before any other
call.  It frees these inodes and their blocks, each in a transaction of its own, and leaves
everything else as it is.
-/

namespace Xv6
namespace Fs

open Lib Function

variable {lo mid hi : Nat} {k k' k'' : Disk}

def Dinode.Orphan (d : Dinode) : Prop :=
  d.type ≠ .free ∧ d.nlink = 0

instance (d : Dinode) : Decidable d.Orphan :=
  inferInstanceAs (Decidable (_ ∧ _))

/-- From `k` to `k'` the orphans from `lo` up to `hi` have been freed. -/
structure Freed (k k' : Disk) (lo hi : Nat) : Prop where
  type : forall n, lo <= n -> n < hi -> (k.dinode n).Orphan -> (k'.dinode n).type = .free
  kept : forall n, (lo <= n -> n < hi -> ¬ (k.dinode n).Orphan) -> k'.dinode n = k.dinode n
  data : k'.data = k.data
  bitmap : forall b, k'.bitmap b = true <-> k.bitmap b = true ∧
    forall n, lo <= n -> n < hi -> (k.dinode n).Orphan -> b ∉ (k.dinode n).taken k.data

namespace Freed

theorem stay (hno : forall n, lo <= n -> n < hi -> ¬ (k.dinode n).Orphan) : Freed k k lo hi where
  type := fun n hlo hhi horphan => absurd horphan (hno n hlo hhi)
  kept := fun _ _ => rfl
  data := rfl
  bitmap := fun _ => ⟨fun hb => ⟨hb, fun n hlo hhi horphan => absurd horphan (hno n hlo hhi)⟩,
    And.left⟩

theorem one {inum : Nat} {d : Dinode} (horphan : (k.dinode inum).Orphan)
    (hdinode : k'.dinode = update k.dinode inum d) (hfree : d.type = .free)
    (hdata : k'.data = k.data) (hbitmap : forall b, k'.bitmap b = true <->
      k.bitmap b = true ∧ b ∉ (k.dinode inum).taken k.data) : Freed k k' inum (inum + 1) := by
  constructor
  · intro n hlo hhi _
    rw [hdinode, Nat.le_antisymm (Nat.le_of_lt_succ hhi) hlo, update_self]
    exact hfree
  · intro n hno
    rw [hdinode, update_of_ne]
    rintro rfl
    exact hno (Nat.le_refl _) (Nat.lt_succ_self _) horphan
  · exact hdata
  · intro b
    refine (hbitmap b).trans (and_congr_right fun _ => ⟨?_, ?_⟩)
    · intro hb n hlo hhi _
      rw [Nat.le_antisymm (Nat.le_of_lt_succ hhi) hlo]
      exact hb
    · intro hall
      exact hall inum (Nat.le_refl _) (Nat.lt_succ_self _) horphan

theorem append (h : Freed k k' lo mid) (h' : Freed k' k'' mid hi) (hlo : lo <= mid)
    (hhi : mid <= hi) : Freed k k'' lo hi := by
  have hlater : forall n, mid <= n -> k'.dinode n = k.dinode n := by
    intro n hn
    refine h.kept n fun _ hlt => ?_
    omega
  constructor
  · intro n hn hlt horphan
    by_cases hmid : n < mid
    · rw [h'.kept n fun hle => absurd hle (Nat.not_le.mpr hmid)]
      exact h.type n hn hmid horphan
    · refine h'.type n (Nat.not_lt.mp hmid) hlt ?_
      rw [hlater n (Nat.not_lt.mp hmid)]
      exact horphan
  · intro n hno
    rw [h'.kept n, h.kept n fun hn hlt => hno hn (Nat.lt_of_lt_of_le hlt hhi)]
    intro hn hlt
    rw [hlater n hn]
    exact hno (Nat.le_trans hlo hn) hlt
  · rw [h'.data, h.data]
  · intro b
    rw [h'.bitmap b, h.bitmap b, and_assoc]
    refine and_congr_right fun _ => ⟨?_, fun hall => ⟨fun n hn hlt => ?_, fun n hn hlt => ?_⟩⟩
    · rintro ⟨hfirst, hrest⟩ n hn hlt horphan
      by_cases hmid : n < mid
      · exact hfirst n hn hmid horphan
      · have hn' := Nat.not_lt.mp hmid
        have hnot := hrest n hn' hlt
        rw [hlater n hn', h.data] at hnot
        exact hnot horphan
    · exact hall n hn (Nat.lt_of_lt_of_le hlt hhi)
    · rw [hlater n hn, h.data]
      exact hall n (Nat.le_trans hlo hn) hlt

end Freed

/-!
## The loop
-/

structure Unheld {nproc : Nat} (s : Sys nproc) : Prop where
  ref : forall i, (s.itable i).ref = 0
  lock : forall i, (s.itable i).lock = none

structure Idle {nproc : Nat} (s : Sys nproc) : Prop extends Unheld s where
  ops : forall u, s.ops u = none
  lh : s.lh = []

/-- The blocks of the inode have their bits in so few bitmap blocks that the header has room for
these and for the inode. -/
def Narrow (sb : Superblock) (k : Disk) (inum : Nat) : Prop :=
  exists bits : List Nat, bits.length + 1 < LOGBLOCKS ∧
    forall b, b ∈ (k.dinode inum).taken k.data -> sb.bblock b ∈ bits

section

variable {nproc inum m : Nat} {sb : Superblock} {s : Sys nproc} {t : Fin nproc}

theorem Sys.setInode_self (s : Sys nproc) (i : Fin NINODE) (x : Inode nproc) :
    (s.setInode i x).itable i = x :=
  update_self _ _ _

theorem Sys.setInode_setInode (s : Sys nproc) (i : Fin NINODE) (x y : Inode nproc) :
    (s.setInode i x).setInode i y = s.setInode i y := by
  simp only [Sys.setInode, update_idem]

theorem Unheld.iget (h : Unheld s) (inum : Nat) :
    exists i, s.iget ROOTDEV inum = .ok (i, s.setInode i
      { s.itable i with
        dev := ROOTDEV
        inum := inum
        ref := 1
        valid := false }) := by
  have hnone : ((List.finRange NINODE).find? fun i => 0 < (s.itable i).ref ∧
      (s.itable i).dev = ROOTDEV ∧ (s.itable i).inum = inum) = none := by
    refine List.find?_eq_none.mpr fun i _ hi => ?_
    have hpos := (of_decide_eq_true hi).1
    rw [h.ref i] at hpos
    exact absurd hpos (Int.lt_irrefl 0)
  have hsome : ((List.finRange NINODE).find? fun i => (s.itable i).ref = 0).isSome = true :=
    List.find?_isSome.mpr ⟨0, List.mem_finRange 0, decide_eq_true (h.ref 0)⟩
  rcases Option.isSome_iff_exists.mp hsome with ⟨i, hi⟩
  refine ⟨i, ?_⟩
  unfold Sys.iget
  rw [hnone, hi]

theorem ends_ilock {tol : Stop -> Prop} {i : Fin NINODE} (h : Consistent sb s)
    (hlive : 0 < (s.itable i).ref) (hlock : (s.itable i).lock = none)
    (hused : (s.disk.dinode (s.itable i).inum).type ≠ .free) :
    (ilock i).ends (Sys.exec sb t) tol (fun _ s' => s' = s.setInode i
      { s.itable i with
        lock := some t
        valid := true
        d := s.disk.dinode (s.itable i).inum }) s := by
  have hacquire : s.acquiresleep t i = .ok (s.setInode i { s.itable i with lock := some t }) := by
    unfold Sys.acquiresleep
    rw [if_neg (by omega), if_pos hlock]
  unfold ilock
  refine Program.ends_act (r := ()) (congrArg (·.map ((), ·)) hacquire) ?_
  have hfill : (s.setInode i { s.itable i with lock := some t }).fill i = .ok (s.setInode i
      { s.itable i with
        lock := some t
        valid := true
        d := s.disk.dinode (s.itable i).inum }) := by
    unfold Sys.fill
    rw [Sys.setInode_self]
    split
    · next hvalid =>
        rw [← (h.cached.copy i hlive hvalid).1]
        have heq : { s.itable i with lock := some t, valid := true } =
            { s.itable i with lock := some t } := by
          rw [← hvalid]
        rw [heq]
    · refine (if_neg hused).trans ?_
      rw [Sys.setInode_setInode]
      rfl
  exact Program.ends_perform (congrArg (·.map ((), ·)) hfill) rfl

def soleEntry (nproc inum : Nat) (d : Dinode) : Inode nproc :=
  {
    dev := ROOTDEV
    inum := inum
    ref := 1
    lock := none
    valid := true
    d := d
  }

theorem Unheld.drop {s' : Sys nproc} {i : Fin NINODE} (h : Unheld s)
    (hother : forall j, j ≠ i -> s'.itable j = s.itable j) (href : (s'.itable i).ref = 0)
    (hlock : (s'.itable i).lock = none) : Unheld s' := by
  constructor
  · intro j
    rcases eq_or_ne j i with rfl | hj
    · exact href
    · rw [hother j hj]
      exact h.ref j
  · intro j
    rcases eq_or_ne j i with rfl | hj
    · exact hlock
    · rw [hother j hj]
      exact h.lock j

theorem Consistent.sole (h : Consistent sb s) (hidle : Unheld s) (i : Fin NINODE) {x : Inode nproc}
    (hdev : x.dev = ROOTDEV)
    (hcopy : x.valid = true -> x.d = s.disk.dinode x.inum ∧ x.d.type ≠ .free) :
    Consistent sb (s.setInode i x) := by
  refine h.setInode fun _ => ⟨hdev, ?_, hcopy⟩
  intro j _ hlive
  rw [hidle.ref j] at hlive
  exact absurd hlive (Int.lt_irrefl 0)

theorem ends_iput_orphan {tol : Stop -> Prop} {i : Fin NINODE} (h : Consistent sb s)
    (hidle : Unheld s) (htx : s.ops t ≠ none) (hlh : s.lh = [])
    (horphan : (s.disk.dinode inum).Orphan) (hnarrow : Narrow sb s.disk inum) :
    (iput i).ends (Sys.exec sb t) tol
      (fun _ s' => Consistent sb s' ∧ Unheld s' ∧ (forall u, u ≠ t -> s'.ops u = s.ops u) ∧
        Freed s.disk s'.disk inum (inum + 1))
      (s.setInode i (soleEntry nproc inum (s.disk.dinode inum))) := by
  generalize hs1 : s.setInode i (soleEntry nproc inum (s.disk.dinode inum)) = s1
  have h1 : Consistent sb s1 := hs1 ▸ h.sole hidle i rfl fun _ => ⟨rfl, horphan.1⟩
  have hself : s1.itable i = soleEntry nproc inum (s.disk.dinode inum) :=
    hs1 ▸ Sys.setInode_self _ _ _
  have hi : Loaded s1 i := by
    unfold Loaded
    rw [hself]
    exact ⟨Int.one_pos, rfl⟩
  have htx1 : s1.ops t ≠ none := hs1 ▸ htx
  have hpart : s1.part t i =
      { d := s.disk.dinode inum, copy := s.disk.dinode inum, data := s.disk.data,
        bitmap := s.disk.bitmap, ops := s.ops t, lh := s.lh } := by
    unfold Sys.part
    rw [hself, ← hs1]
    rfl
  rcases hnarrow with ⟨bits, hfew, hbits⟩
  refine Program.ends_mono (ends_iput_last _ h1 htx1 ?_ ?_ ?_) ?_
  · rw [hself]
    exact ⟨rfl, rfl, horphan.2⟩
  · rw [hself]
    rfl
  · intro v e hv hfull _
    rw [hpart] at hv
    have hlen := (hv.logs bits hbits).length_le
    rw [hlh, List.length_nil, List.length_cons] at hlen
    omega
  rintro _ _ ⟨v, hv, rfl⟩
  refine ⟨h1.put_freed hi (confined_freed (h1.owned hi htx1) hv _) rfl rfl rfl, ?_, ?_, ?_⟩
  · refine hidle.drop (i := i) ?_ ?_ ?_
    · intro j hj
      rw [← hs1]
      simp only [Sys.setInode, Sys.put, update_of_ne hj]
    · rw [Sys.setInode_self, hself]
      rfl
    · rw [Sys.setInode_self]
  · intro u hu
    rw [← hs1]
    exact update_of_ne hu _ _
  · rw [hpart] at hv
    refine Freed.one (d := { v.d with type := .free }) horphan ?_ rfl hv.data hv.bitmap
    change update s1.disk.dinode (s1.itable i).inum _ = _
    rw [hself, ← hs1]
    rfl

theorem outstanding_zero (h : forall u, s.ops u = none) : s.outstanding = 0 := by
  unfold Sys.outstanding
  rw [List.countP_eq_zero]
  intro u _
  rw [h u]
  exact Bool.false_ne_true

theorem ends_reclaim {f : Unit -> Prog Unit} {Q : Unit -> Sys nproc -> Prop}
    (h : Consistent sb s) (hidle : Idle s) (horphan : (s.disk.dinode inum).Orphan)
    (hnarrow : Narrow sb s.disk inum)
    (hrest : forall s', Consistent sb s' -> Idle s' -> Freed s.disk s'.disk inum (inum + 1) ->
      (f ()).ends (Sys.exec sb t) (fun _ => False) Q s') :
    Program.ends (Sys.exec sb t) (fun _ => False) (do
      let ip ← perform (.iget ROOTDEV inum)
      perform .beginOp
      ilock ip
      perform (.iunlock ip)
      iput ip
      perform .endOp
      f ()) Q s := by
  rcases hidle.iget inum with ⟨i, hget⟩
  have hfree := hidle.lock i
  generalize s.itable i = x at hget hfree
  refine Program.ends_act hget ?_
  generalize hs0 : { s with ops := update s.ops t (some []) } = s0
  have h0 : Consistent sb s0 := hs0 ▸ ⟨h.clean, h.cached⟩
  have hidle0 : Unheld s0 := hs0 ▸ ⟨hidle.ref, hidle.lock⟩
  have hlh0 : s0.lh = [] := hs0 ▸ hidle.lh
  have htx : s0.ops t ≠ none := by
    rw [← hs0]
    change update s.ops t (some []) t ≠ none
    rw [update_self]
    exact nofun
  have hdisk : s.disk = s0.disk := by
    rw [← hs0]
  rw [hdisk] at horphan hnarrow hrest
  have hbegin : Sys.exec sb t .beginOp (s.setInode i
      { x with dev := ROOTDEV, inum := inum, ref := 1, valid := false }) =
      .ok ((), s0.setInode i
        { x with dev := ROOTDEV, inum := inum, ref := 1, valid := false }) := by
    change ((s.setInode i _).beginOp t).map _ = _
    unfold Sys.beginOp
    rw [outstanding_zero (s := s.setInode i _) hidle.ops, if_neg, ← hs0]
    · rfl
    · change ¬ LOGBLOCKS < s.lh.length + (0 + 1) * MAXOPBLOCKS
      rw [hidle.lh]
      decide
  refine Program.ends_act hbegin ?_
  have h1 := h0.sole hidle0 i
    (x := { x with dev := ROOTDEV, inum := inum, ref := 1, valid := false }) rfl nofun
  refine Program.ends_call (ends_ilock h1 ?_ ?_ ?_) ?_
  · rw [Sys.setInode_self]
    exact Int.one_pos
  · rw [Sys.setInode_self]
    exact hfree
  · rw [Sys.setInode_self]
    exact horphan.1
  rintro _ _ rfl
  rw [Sys.setInode_self, Sys.setInode_setInode]
  have hunlock : Sys.exec sb t (.iunlock i) (s0.setInode i
      { soleEntry nproc inum (s0.disk.dinode inum) with lock := some t }) =
      .ok ((), s0.setInode i (soleEntry nproc inum (s0.disk.dinode inum))) := by
    change ((s0.setInode i _).iunlock t i).map _ = _
    unfold Sys.iunlock
    rw [Sys.setInode_self, if_neg (by simp [soleEntry]), Sys.setInode_setInode]
    rfl
  refine Program.ends_act hunlock ?_
  refine Program.ends_call (ends_iput_orphan h0 hidle0 htx hlh0 horphan hnarrow) ?_
  rintro _ s1 ⟨h1, hidle1, hops, hfreed⟩
  have hnone : forall u, update s1.ops t none u = none := by
    intro u
    rcases eq_or_ne u t with rfl | hu
    · exact update_self _ _ _
    · rw [update_of_ne hu, hops u hu, ← hs0]
      exact (update_of_ne hu _ _).trans (hidle.ops u)
  have hend : s1.endOp t = { s1 with ops := update s1.ops t none, lh := [] } := by
    unfold Sys.endOp
    exact if_pos (outstanding_zero hnone)
  refine Program.ends_act (r := ()) rfl ?_
  rw [hend]
  exact hrest _ ⟨h1.clean, h1.cached⟩ ⟨⟨hidle1.ref, hidle1.lock⟩, hnone, rfl⟩ hfreed

theorem Freed.narrow (h : Freed k k' lo hi) {n : Nat} (hkept : k'.dinode n = k.dinode n)
    (hnarrow : Narrow sb k n) : Narrow sb k' n := by
  unfold Narrow
  rw [hkept, h.data]
  exact hnarrow

theorem ends_ireclaimLoop (h : Consistent sb s) (hidle : Idle s)
    (hnarrow : forall n, inum <= n -> n < inum + m -> (s.disk.dinode n).Orphan ->
      Narrow sb s.disk n) :
    (ireclaimLoop inum m).ends (Sys.exec sb t) (fun _ => False)
      (fun _ s' => Consistent sb s' ∧ Idle s' ∧ Freed s.disk s'.disk inum (inum + m)) s := by
  induction m generalizing inum s with
  | zero =>
    refine Program.ends_ret ⟨h, hidle, .stay fun n hlo hhi => ?_⟩
    omega
  | succ m ih =>
    have hnext : forall s1, Consistent sb s1 -> Idle s1 -> Freed s.disk s1.disk inum (inum + 1) ->
        (ireclaimLoop (inum + 1) m).ends (Sys.exec sb t) (fun _ => False)
          (fun _ s' => Consistent sb s' ∧ Idle s' ∧
            Freed s.disk s'.disk inum (inum + (m + 1))) s1 := by
      intro s1 h1 hidle1 hfreed
      have hlater : forall n, inum + 1 <= n -> n < inum + 1 + m -> (s1.disk.dinode n).Orphan ->
          Narrow sb s1.disk n := by
        intro n hlo hhi horphan
        have hkept := hfreed.kept n fun _ hlt => absurd hlt (Nat.not_lt.mpr hlo)
        rw [hkept] at horphan
        exact hfreed.narrow hkept (hnarrow n (by omega) (by omega) horphan)
      refine Program.ends_mono (ih h1 hidle1 hlater) ?_
      rintro _ s2 ⟨h2, hidle2, hrest⟩
      rw [Nat.add_assoc, Nat.add_comm 1 m] at hrest
      exact ⟨h2, hidle2, hfreed.append hrest (by omega) (by omega)⟩
    unfold ireclaimLoop
    refine Program.ends_act (r := s.disk.dinode inum) rfl ?_
    split
    · next horphan =>
        exact ends_reclaim (f := fun _ => ireclaimLoop (inum + 1) m) h hidle horphan
          (hnarrow inum (Nat.le_refl _) (by omega) horphan) hnext
    · next hno =>
        refine hnext s h hidle (.stay fun n hlo hhi => ?_)
        rw [Nat.le_antisymm (Nat.le_of_lt_succ hhi) hlo]
        exact hno

theorem ireclaimLoop_stay
    (hno : forall n, inum <= n -> n < inum + m -> ¬ (s.disk.dinode n).Orphan) :
    (ireclaimLoop inum m).run (Sys.exec sb t) s = .ok ((), s) := by
  induction m generalizing inum with
  | zero => rfl
  | succ m ih =>
    have hnot : ¬ ((s.disk.dinode inum).type ≠ .free ∧ (s.disk.dinode inum).nlink = 0) :=
      hno inum (Nat.le_refl _) (by omega)
    unfold ireclaimLoop
    change Program.run (Sys.exec sb t) (if (s.disk.dinode inum).type ≠ .free ∧
      (s.disk.dinode inum).nlink = 0 then _ else _) s = _
    rw [if_neg hnot]
    exact ih fun n hlo hhi => hno n (by omega) (by omega)

structure Reclaimed (sb : Superblock) (k k' : Disk) : Prop where
  none : forall n, 1 <= n -> n < sb.ninodes -> ¬ (k'.dinode n).Orphan
  freed : forall n, 1 <= n -> n < sb.ninodes -> (k.dinode n).Orphan ->
    (k'.dinode n).type = .free ∧ forall b, b ∈ (k.dinode n).taken k.data -> k'.bitmap b = false
  kept : forall n, (1 <= n -> n < sb.ninodes -> ¬ (k.dinode n).Orphan) ->
    k'.dinode n = k.dinode n ∧ ((k.dinode n).type ≠ .free ->
      forall b, b ∈ (k.dinode n).taken k.data -> k'.bitmap b = true)
  data : k'.data = k.data
  bits : forall b, k'.bitmap b ≠ k.bitmap b -> exists n, 1 <= n ∧ n < sb.ninodes ∧
    (k.dinode n).Orphan ∧ b ∈ (k.dinode n).taken k.data

theorem Freed.reclaimed (h : Clean sb k) (hfreed : Freed k k' 1 (1 + (sb.ninodes - 1))) :
    Reclaimed sb k k' := by
  have hend : forall n, 1 <= n -> n < sb.ninodes -> n < 1 + (sb.ninodes - 1) := by
    intro n hlo hhi
    omega
  have hbound : forall n, 1 <= n -> n < 1 + (sb.ninodes - 1) -> n < sb.ninodes := by
    intro n hlo hhi
    omega
  constructor
  · intro n hlo hhi horphan
    by_cases hold : (k.dinode n).Orphan
    · exact horphan.1 (hfreed.type n hlo (hend n hlo hhi) hold)
    · rw [hfreed.kept n fun _ _ => hold] at horphan
      exact hold horphan
  · intro n hlo hhi horphan
    refine ⟨hfreed.type n hlo (hend n hlo hhi) horphan, fun b hb => ?_⟩
    rw [← Bool.not_eq_true, hfreed.bitmap b]
    exact fun hall => hall.2 n hlo (hend n hlo hhi) horphan hb
  · intro n hno
    have hkept := hfreed.kept n fun hlo hhi => hno hlo (hbound n hlo hhi)
    refine ⟨hkept, fun hused b hb => ?_⟩
    refine (hfreed.bitmap b).mpr ⟨(h.tidy n hused).marked b hb, ?_⟩
    intro n' hlo hhi horphan hb'
    have heq := h.separate n n' b hused horphan.1 hb hb'
    subst heq
    exact hno hlo (hbound n hlo hhi) horphan
  · exact hfreed.data
  · intro b hne
    by_contra hnone
    refine hne (Bool.eq_iff_iff.mpr ((hfreed.bitmap b).trans ⟨And.left, fun hb => ⟨hb, ?_⟩⟩))
    intro n hlo hhi horphan hmem
    exact hnone ⟨n, hlo, hbound n hlo hhi, horphan, hmem⟩

theorem ireclaim_frees_orphans (h : Consistent sb s) (hidle : Idle s)
    (hnarrow : forall n, 1 <= n -> n < sb.ninodes -> (s.disk.dinode n).Orphan ->
      Narrow sb s.disk n) (t : Fin nproc) :
    exists s', (ireclaim sb).run (Sys.exec sb t) s = .ok ((), s') ∧
      Reclaimed sb s.disk s'.disk ∧ Consistent sb s' ∧ Idle s' ∧
      (ireclaim sb).run (Sys.exec sb t) s' = .ok ((), s') := by
  have hends : (ireclaim sb).ends (Sys.exec sb t) (fun _ => False) (fun _ s' => Consistent sb s' ∧
      Idle s' ∧ Freed s.disk s'.disk 1 (1 + (sb.ninodes - 1))) s :=
    ends_ireclaimLoop h hidle fun n hlo hhi => hnarrow n hlo (by omega)
  rcases Program.ends_ok hends with ⟨_, s', hrun, h', hidle', hfreed⟩
  have hdone := hfreed.reclaimed h.clean
  refine ⟨s', hrun, hdone, h', hidle', ireclaimLoop_stay ?_⟩
  intro n hlo hhi
  exact hdone.none n hlo (by omega)

end

def orphaned : Sys 1 :=
  { oneInode with
    disk :=
      { oneInode.disk with
        dinode := fun n => if n = 2 then { (oneFile.itable 0).d with nlink := 0 } else Dinode.zero }
    itable := fun _ => { oneFile.itable 0 with ref := 0, lock := none }
    ops := fun _ => none }

theorem orphaned_consistent : Consistent tinyDisk orphaned where
  clean := .single one_used
    ⟨oneFile_noHoles, oneFile_owned.apart, oneFile_owned.data, oneFile_owned.marked⟩
    oneFile_owned.free
  cached := ⟨fun _ hi => absurd hi (Int.lt_irrefl 0), fun _ _ hi => absurd hi (Int.lt_irrefl 0),
    fun _ hi => absurd hi (Int.lt_irrefl 0)⟩

theorem ireclaim_frees_orphans_one :
    exists s', (ireclaim tinyDisk).run (Sys.exec tinyDisk 0) orphaned = .ok ((), s') ∧
      (orphaned.disk.dinode 2).Orphan ∧ (s'.disk.dinode 2).type = .free ∧
      orphaned.disk.bitmap 40 = true ∧ s'.disk.bitmap 40 = false := by
  have hnarrow : forall n, 1 <= n -> n < tinyDisk.ninodes -> (orphaned.disk.dinode n).Orphan ->
      Narrow tinyDisk orphaned.disk n := by
    intro n _ _ horphan
    obtain rfl : n = 2 := by
      by_contra hne
      exact horphan.1 (congrArg Dinode.type (if_neg hne))
    refine ⟨[tinyDisk.bblock 40], by decide, fun b hb => ?_⟩
    rw [oneFile_taken hb]
    exact List.mem_singleton.mpr rfl
  rcases ireclaim_frees_orphans orphaned_consistent
    ⟨⟨fun _ => rfl, fun _ => rfl⟩, fun _ => rfl, rfl⟩ hnarrow 0 with ⟨s', hrun, hdone, _⟩
  have horphan : (orphaned.disk.dinode 2).Orphan := by
    decide
  rcases hdone.freed 2 (by decide) (by decide) horphan with ⟨htype, hblocks⟩
  have hmem : 40 ∈ (orphaned.disk.dinode 2).taken orphaned.disk.data :=
    ⟨by decide, .direct 0, rfl⟩
  exact ⟨s', hrun, horphan, htype, by decide, hblocks 40 hmem⟩

/-!
## An orphan in too many bitmap blocks
-/

def wideDisk : Superblock :=
  {
    size := 30 * BPB
    nblocks := 30 * BPB - 100
    ninodes := 3
    inodestart := 36
    bmapstart := 40
  }

def scattered : Sys 1 :=
  { orphaned with
    disk :=
      {
        dinode := fun n =>
          if n = 2 then
            { Dinode.zero with
              type := .file
              size := 28 * BSIZE
              addrs := fun k => ((k : Nat) + 1) * BPB }
          else
            Dinode.zero
        bitmap := fun b => b < 100 ∨ (b ≠ 0 ∧ b % BPB = 0)
        data := fun b o =>
          if b = 13 * BPB ∧ o < 64 then UInt8.ofNat ((14 + o / 4) * BPB / 256 ^ (o % 4)) else 0
      } }

def scatteredIndex : Slot -> Nat
  | .direct k => (k : Nat) + 1
  | .entry j => if (j : Nat) < 16 then 14 + (j : Nat) else 0

theorem scattered_slots (p : Slot) :
    (scattered.disk.dinode 2).slots scattered.disk.data p = scatteredIndex p * BPB := by
  cases p with
  | direct k => rfl
  | entry j =>
    change (if (13 * BPB) = 0 then 0 else entry (scattered.disk.data (13 * BPB)) j) =
      (if (j : Nat) < 16 then 14 + (j : Nat) else 0) * BPB
    rw [if_neg (by decide)]
    have hdigits : entry (scattered.disk.data (13 * BPB)) j =
        ((if (j : Nat) < 16 then 14 + (j : Nat) else 0) * BPB) % 256 ^ 4 := by
      refine Bytes.getLE_digits fun l hl => ?_
      change (if 13 * BPB = 13 * BPB ∧ 4 * (j : Nat) + l < 64 then _ else 0) = _
      have hdiv : (4 * (j : Nat) + l) / 4 = j := by omega
      have hmod : (4 * (j : Nat) + l) % 4 = l := by omega
      rw [hdiv, hmod]
      by_cases hj : (j : Nat) < 16
      · rw [if_pos ⟨rfl, by omega⟩, if_pos hj]
      · rw [if_neg (by omega), if_neg hj, Nat.zero_mul, Nat.zero_div]
        rfl
    rw [hdigits]
    refine Nat.mod_eq_of_lt ?_
    have hBPB : BPB = 8192 := rfl
    rw [hBPB]
    split <;> omega

theorem scatteredIndex_lt (p : Slot) : scatteredIndex p < 30 := by
  cases p with
  | direct k =>
    have hk : (k : Nat) < 13 := k.isLt
    change (k : Nat) + 1 < 30
    omega
  | entry j =>
    change (if (j : Nat) < 16 then 14 + (j : Nat) else 0) < 30
    split <;> omega

theorem scatteredIndex_inj {p q : Slot} (heq : scatteredIndex p = scatteredIndex q)
    (hne : scatteredIndex p ≠ 0) : p = q := by
  cases p with
  | direct k =>
    have hk : (k : Nat) < 13 := k.isLt
    cases q with
    | direct k' =>
      change (k : Nat) + 1 = k' + 1 at heq
      exact congrArg _ (Fin.ext (by omega))
    | entry j =>
      change (k : Nat) + 1 = (if (j : Nat) < 16 then 14 + (j : Nat) else 0) at heq
      split at heq <;> omega
  | entry j =>
    change (if (j : Nat) < 16 then 14 + (j : Nat) else 0) ≠ 0 at hne
    split at hne
    · next hj =>
        cases q with
        | direct k =>
          have hk : (k : Nat) < 13 := k.isLt
          change (if (j : Nat) < 16 then 14 + (j : Nat) else 0) = (k : Nat) + 1 at heq
          rw [if_pos hj] at heq
          omega
        | entry j' =>
          change (if (j : Nat) < 16 then 14 + (j : Nat) else 0) =
            if (j' : Nat) < 16 then 14 + (j' : Nat) else 0 at heq
          rw [if_pos hj] at heq
          split at heq
          · exact congrArg _ (Fin.ext (by omega))
          · omega
    · exact absurd rfl hne

theorem scattered_tidy :
    Tidy wideDisk scattered.disk.data scattered.disk.bitmap (scattered.disk.dinode 2) := by
  have hBPB : BPB = 8192 := rfl
  have htaken : forall b, b ∈ (scattered.disk.dinode 2).taken scattered.disk.data ->
      exists n, n ≠ 0 ∧ n < 30 ∧ b = n * BPB := by
    rintro b ⟨hne, p, rfl⟩
    rw [scattered_slots] at hne
    refine ⟨scatteredIndex p, ?_, scatteredIndex_lt p, scattered_slots p⟩
    intro hzero
    exact hne (by rw [hzero, Nat.zero_mul])
  constructor
  · intro bn hbn
    change bn * BSIZE < 28 * BSIZE at hbn
    have hlt : bn < 28 := Nat.lt_of_mul_lt_mul_right hbn
    have hmax : bn < MAXFILE := Nat.lt_trans hlt (by decide)
    rw [blockAt_eq hmax, scattered_slots]
    refine Nat.mul_ne_zero ?_ (by decide)
    unfold Dinode.slotOf
    split
    · exact Nat.succ_ne_zero _
    · next hdirect =>
        have hentry : bn - NDIRECT < 16 := by
          have hN : NDIRECT = 12 := rfl
          omega
        change (if bn - NDIRECT < 16 then 14 + (bn - NDIRECT) else 0) ≠ 0
        rw [if_pos hentry]
        omega
  · intro p q heq hne
    rw [scattered_slots] at heq hne
    rw [scattered_slots] at heq
    refine scatteredIndex_inj (Nat.eq_of_mul_eq_mul_right (by decide) heq) ?_
    intro hzero
    exact hne (by rw [hzero, Nat.zero_mul])
  · intro b hb
    rcases htaken b hb with ⟨n, hne, hlt, rfl⟩
    change 30 * BPB - (30 * BPB - 100) <= n * BPB ∧ n * BPB < 30 * BPB
    rw [hBPB]
    omega
  · intro b hb
    rcases htaken b hb with ⟨n, hne, hlt, rfl⟩
    exact decide_eq_true (.inr ⟨Nat.mul_ne_zero hne (by decide), Nat.mul_mod_left _ _⟩)

theorem scattered_consistent : Consistent wideDisk scattered where
  clean := by
    refine .single one_used scattered_tidy ?_
    intro b hsize hbit
    have hnot := of_decide_eq_false hbit
    change 30 * BPB - (30 * BPB - 100) <= b ∧ b < 30 * BPB
    have hBPB : BPB = 8192 := rfl
    have hlt : b < 30 * BPB := hsize
    omega
  cached := ⟨fun _ hi => absurd hi (Int.lt_irrefl 0), fun _ _ hi => absurd hi (Int.lt_irrefl 0),
    fun _ hi => absurd hi (Int.lt_irrefl 0)⟩

/-- The header holds the 29 bitmap blocks and the inode when the inode is logged once more. -/
theorem scattered_orphan_panics :
    Consistent wideDisk scattered ∧ Idle scattered ∧ (scattered.disk.dinode 2).Orphan ∧
      (ireclaim wideDisk).run (Sys.exec wideDisk 0) scattered =
        .error (.panic .logWriteTooBig) := by
  refine ⟨scattered_consistent, ⟨⟨fun _ => rfl, fun _ => rfl⟩, fun _ => rfl, rfl⟩, by decide, ?_⟩
  have hcheck : stops ((ireclaim wideDisk).run (Sys.exec wideDisk 0) scattered)
      (fun e => decide (e = .panic .logWriteTooBig)) = true := by
    decide +kernel
  rcases stops_eq_true.mp hcheck with ⟨e, hrun, he⟩
  rw [hrun, of_decide_eq_true he]

end Fs
end Xv6
