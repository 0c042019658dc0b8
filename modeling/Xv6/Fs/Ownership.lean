import Xv6.Fs.Reuse

/-!
# Blocks and the bitmap

The calls on inodes, one after the other, keep the bitmap exact.  A data block is marked if and
only if an inode in use refers to it, and it is referred to in one place only.
-/

namespace Xv6
namespace Fs

open Lib Function

def Disk.Refers (k : Disk) (n : Nat) (p : Slot) (b : Nat) : Prop :=
  (k.dinode n).type ≠ .free ∧ b ≠ 0 ∧ (k.dinode n).slots k.data p = b

def NoLeak (sb : Superblock) (k : Disk) : Prop :=
  forall b, sb.IsData b -> k.bitmap b = true -> exists n p, k.Refers n p b

section

variable {nproc inum n : Nat} {sb : Superblock} {k : Disk} {s s' s0 : Sys nproc} {t : Fin nproc}
  {i : Fin NINODE} {v v' : Part}

theorem NoLeak.dinode (h : NoLeak sb k) {d : Dinode} (hd : (k.dinode n).type ≠ .free ->
    d.type ≠ .free ∧ d.addrs = (k.dinode n).addrs) :
    NoLeak sb { k with dinode := update k.dinode n d } := by
  intro b hdata hb
  rcases h b hdata hb with ⟨m, p, hused, hne, hslot⟩
  refine ⟨m, p, ?_⟩
  unfold Disk.Refers
  dsimp only
  rcases eq_or_ne m n with rfl | hm
  · rw [update_self]
    refine ⟨(hd hused).1, hne, ?_⟩
    rw [← hslot]
    cases p <;> (unfold Dinode.slots Dinode.ind; rw [(hd hused).2])
  · rw [update_of_ne hm]
    exact ⟨hused, hne, hslot⟩

theorem NoLeak.put (hleak : NoLeak sb s.disk) (h : Consistent sb s) (hi : Loaded s i)
    (hv : Confined sb (s.part t i) v) (hexact : forall b, v.bitmap b = true ->
      (v.d.type ≠ .free ∧ b ∈ v.taken) ∨ (s.disk.bitmap b = true ∧ b ∉ (s.part t i).taken)) :
    NoLeak sb (s.put t i v).disk := by
  have hcopy := h.cached.copy i hi.1 hi.2
  intro b hdata hb
  rcases hexact b hb with ⟨hused, hne, p, hp⟩ | ⟨hold, hnot⟩
  · refine ⟨(s.itable i).inum, p, ?_⟩
    unfold Disk.Refers
    rw [show (s.put t i v).disk.dinode (s.itable i).inum = v.d from
      (update_self _ _ _).trans hv.copy]
    exact ⟨hused, hne, hp⟩
  · rcases hleak b hdata hold with ⟨m, p, hused, hne, hp⟩
    have hm : m ≠ (s.itable i).inum := by
      rintro rfl
      exact hnot ⟨hne, p, by rw [← hp, ← hcopy.1]; rfl⟩
    have hsame : (s.disk.dinode m).slots v.data = (s.disk.dinode m).slots s.disk.data := by
      refine slots_of_agree fun b' hb' => (hv.others b' ((h.clean.tidy m hused).marked b' hb') ?_).2
      intro hmine
      exact hm (h.clean.separate m _ b' hused (hcopy.1 ▸ hcopy.2) hb' (hcopy.1 ▸ hmine))
    refine ⟨m, p, ?_⟩
    unfold Disk.Refers
    rw [show (s.put t i v).disk.dinode m = s.disk.dinode m from update_of_ne hm _ _]
    exact ⟨hused, hne, (congrFun hsame p).trans hp⟩

theorem Sys.iget_disk {dev : Nat} (h : s.iget dev inum = .ok (i, s')) : s'.disk = s.disk := by
  unfold Sys.iget at h
  grind [Sys.setInode]

theorem noLeak_iallocLoop {type : FileType} {r : Option (Fin NINODE)} (h : NoLeak sb s.disk)
    (hrun : (iallocLoop ROOTDEV type inum n).run (Sys.exec sb t) s = .ok (r, s')) :
    NoLeak sb s'.disk := by
  induction n generalizing inum s with
  | zero =>
    cases hrun
    exact h
  | succ n ih =>
    rcases Program.run_bind_eq_ok.mp hrun with ⟨found, s1, hclaim, hrest⟩
    rw [perform, Program.run_perform] at hclaim
    change s.claim sb t inum type = _ at hclaim
    unfold Sys.claim at hclaim
    split at hclaim
    · next hfree =>
        rcases map_eq_ok.mp hclaim with ⟨s2, hlog, heq⟩
        cases heq
        rcases Sys.logWrite_eq hlog with ⟨ops, lh, rfl⟩
        rcases Program.run_bind_eq_ok.mp hrest with ⟨j, s3, hget, hret⟩
        cases hret
        rw [perform, Program.run_perform] at hget
        rw [Sys.iget_disk hget]
        exact h.dinode fun hused => absurd hfree hused
    · cases hclaim
      exact ih h hrest

theorem noLeak_op {c : InodeOp} (hsb : sb.Valid) (h : Consistent sb s) (hleak : NoLeak sb s.disk)
    (hready : c.Ready t s) (hrun : c.run sb t s = .ok s') : NoLeak sb s'.disk := by
  cases c with
  | beginOp =>
    rcases map_eq_ok.mp hrun with ⟨⟨_, s1⟩, hx, rfl⟩
    rw [perform, Program.run_perform] at hx
    rcases map_eq_ok.mp hx with ⟨s2, hs2, heq⟩
    cases heq
    rw [Sys.beginOp_eq hs2]
    exact hleak
  | endOp =>
    cases hrun
    rcases s.endOp_eq t with ⟨lh, heq⟩
    change NoLeak sb (s.endOp t).disk
    rw [heq]
    exact hleak
  | iget inum =>
    rcases map_eq_ok.mp hrun with ⟨⟨j, s1⟩, hget, rfl⟩
    rw [perform, Program.run_perform] at hget
    rw [Sys.iget_disk hget]
    exact hleak
  | ilock i =>
    rcases map_eq_ok.mp hrun with ⟨⟨_, s1⟩, hx, rfl⟩
    rcases Program.run_bind_eq_ok.mp hx with ⟨_, s2, hacquire, hfill⟩
    rw [perform, Program.run_perform] at hacquire hfill
    grind [Sys.exec, Sys.acquiresleep, Sys.fill, Sys.setInode, map_eq_ok]
  | iunlock i =>
    rcases map_eq_ok.mp hrun with ⟨⟨_, s1⟩, hunlock, rfl⟩
    rw [perform, Program.run_perform] at hunlock
    grind [Sys.exec, Sys.iunlock, Sys.setInode, map_eq_ok]
  | ialloc type =>
    rcases map_eq_ok.mp hrun with ⟨⟨r, s1⟩, hx, rfl⟩
    exact noLeak_iallocLoop hleak hx
  | writei i src off n =>
    rcases hready with ⟨htx, hi, hoff, hn⟩
    rcases map_eq_ok.mp hrun with ⟨⟨r, s1⟩, hx, rfl⟩
    rcases writei_cases (s := s) (i := i) off n with hbad | ⟨hle, hmax⟩
    · rw [writei_rejected hoff hn hbad] at hx
      cases hx
      exact hleak
    · rcases writei_returned hsb (h.owned hi htx) hle hmax hx with ⟨v, _, _, rfl, hw⟩
      refine hleak.put h hi (confined_written (h.noHoles hi) hle hw) fun b hb => ?_
      have htype : v.d.type ≠ .free := by
        rw [hw.wrote.fields]
        exact (h.cached.copy i hi.1 hi.2).2
      rcases (hw.wrote.bitmap b).mp hb with hold | hnew
      · by_cases hmine : b ∈ (s.part t i).taken
        · rcases hmine with ⟨hne, p, rfl⟩
          exact .inl ⟨htype, hne, p, hw.wrote.kept p hne⟩
        · exact .inr ⟨hold, hmine⟩
      · exact .inl ⟨htype, hnew⟩
  | itrunc i =>
    have hown := h.owned hready.2 hready.1
    rcases map_eq_ok.mp hrun with ⟨⟨_, s1⟩, hx, rfl⟩
    have hends := Sys.ends_part (fun _ => True) (Part.ends_itrunc hown)
      fun _ _ _ _ _ _ => trivial
    rcases Program.ends_run hends hx with ⟨v, rfl, hv⟩
    exact hleak.put h hready.2 (confined_truncated hown hv) fun b hb => .inr ((hv.bitmap b).mp hb)
  | link i x =>
    rcases map_eq_ok.mp hrun with ⟨⟨_, s1⟩, hx, rfl⟩
    rcases Program.run_bind_eq_ok.mp hx with ⟨_, s2, hupdate, hwrite⟩
    rw [perform, Program.run_perform] at hupdate hwrite
    cases hupdate
    rcases map_eq_ok.mp hwrite with ⟨s3, hlog, heq⟩
    cases heq
    rcases Sys.logWrite_eq hlog with ⟨ops, lh, rfl⟩
    have hcopy := h.cached.copy i hready.2.1 hready.2.2
    refine hleak.dinode fun _ => ?_
    simp only [Sys.setInode, update_self]
    rw [← hcopy.1]
    exact ⟨hcopy.2, rfl⟩
  | iput i =>
    rcases map_eq_ok.mp hrun with ⟨⟨_, s1⟩, hx, rfl⟩
    rcases Program.run_bind_eq_ok.mp hx with ⟨_, s2, hfirst, hrest⟩
    rw [perform, Program.run_perform] at hfirst
    change s.iputFirst t i = _ at hfirst
    unfold Sys.iputFirst at hfirst
    split at hfirst
    · next hlast =>
        split at hfirst
        · next hfree =>
            have hi : Loaded s i := ⟨hready.2, hlast.2.1⟩
            have hends := ends_iput_last (fun _ => True) h hready.1 hlast hfree
              fun _ _ _ _ _ => trivial
            rcases Program.ends_run hends hx with ⟨v, hv, rfl⟩
            exact hleak.put h hi (confined_freed (h.owned hi hready.1) hv _) fun b hb =>
              .inr ((hv.bitmap b).mp hb)
        · cases hfirst
    · cases hfirst
      cases hrest
      exact hleak

/-- Whatever the calls, no block leaks and none is shared. -/
theorem blocks_owned_once (hsb : sb.Valid) (h0 : Consistent sb s0) (hexact : NoLeak sb s0.disk)
    (hreach : ((inodeOps sb nproc).restart s0).ReachableVia (fun s l => l.2.Ready l.1 s) s) :
    (forall b, sb.IsData b -> (s.disk.bitmap b = true <-> exists n p, s.disk.Refers n p b)) ∧
    (forall n p b, s.disk.Refers n p b -> sb.IsData b) ∧
    forall n p m q b, s.disk.Refers n p b -> s.disk.Refers m q b -> n = m ∧ p = q := by
  have hinv : Consistent sb s ∧ NoLeak sb s.disk := by
    refine hreach.invariant (I := fun s => Consistent sb s ∧ NoLeak sb s.disk) ?_ ?_
    · rintro s rfl
      exact ⟨h0, hexact⟩
    · rintro s l s' ⟨hs, hleak⟩ hready hstep
      exact ⟨keeps_op hsb hs hready hstep, noLeak_op hsb hs hleak hready hstep⟩
  rcases hinv with ⟨h, hleak⟩
  have hmem : forall n p b, s.disk.Refers n p b -> b ∈ (s.disk.dinode n).taken s.disk.data :=
    fun n p b hb => ⟨hb.2.1, p, hb.2.2⟩
  refine ⟨fun b hdata => ⟨hleak b hdata, ?_⟩, ?_, ?_⟩
  · rintro ⟨n, p, hb⟩
    exact (h.clean.tidy n hb.1).marked b (hmem n p b hb)
  · intro n p b hb
    exact (h.clean.tidy n hb.1).inside b (hmem n p b hb)
  · intro n p m q b hb hb'
    obtain rfl := h.clean.separate n m b hb.1 hb'.1 (hmem n p b hb) (hmem m q b hb')
    have hslots := hb.2.2.trans hb'.2.2.symm
    exact ⟨rfl, (h.clean.tidy n hb.1).apart p q hslots (hb.2.2 ▸ hb.2.1)⟩

end

theorem oneInode_noLeak : NoLeak tinyDisk oneInode.disk := by
  intro b hdata hb
  have hlt : b < 41 := of_decide_eq_true hb
  have hge : 40 <= b := hdata.1
  obtain rfl : b = 40 := by omega
  exact ⟨2, .direct 0, by decide, by decide, by decide⟩

theorem blocks_owned_once_written :
    exists s : Sys 1, ((inodeOps tinyDisk 1).restart oneInode).ReachableVia
        (fun s l => l.2.Ready l.1 s) s ∧ (s.itable 0).d.size = 1025 ∧
      forall b, tinyDisk.IsData b ->
        (s.disk.bitmap b = true <-> exists n p, s.disk.Refers n p b) := by
  have hcheck : (System.run (fun s l => (InodeOp.run tinyDisk l.1 s l.2).toOption)
      (fun s l => l.2.Ready l.1 s) oneInode
      [(0, .ilock 0), (0, .writei 0 (fun _ => some 7) 4 1021)]).any
        (fun s => decide ((s.itable 0).d.size = 1025)) = true := by
    decide +kernel
  have hinit : ((inodeOps tinyDisk 1).restart oneInode).ReachableVia
      (fun s l => l.2.Ready l.1 s) oneInode := .init rfl
  obtain ⟨s, hreach, hcheck⟩ := hinit.run_any (fun _ _ _ => toOption_eq_some.mp) hcheck
  exact ⟨s, hreach, of_decide_eq_true hcheck,
    (blocks_owned_once tinyDisk_valid oneInode_consistent oneInode_noLeak hreach).1⟩

end Fs
end Xv6
