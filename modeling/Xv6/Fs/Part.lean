import Xv6.Fs.Blocks

/-!
# The part of the state behind one locked inode

`bmap`, `itrunc`, `readi` and `writei` work on one inode, on the bitmap and on data
blocks.  Run on their own, they see only a part of the state: the inode in memory and
on disk, the bitmap, the data and the blocks that have been logged.  What they
do to that part they do to the whole state around it, and nothing else.

The log of the part is one that never fills up.  The whole follows the part until
its log header is full, and from then on it may stop instead.
-/

namespace Xv6
namespace Fs

open Lib Function

structure Part where
  d : Dinode
  copy : Dinode
  data : Nat -> Bytes
  bitmap : Nat -> Bool
  ops : Option (List Nat)
  lh : List Nat

namespace Part

variable {nproc : Nat}

def mark (v : Part) (b : Nat) (used : Bool) : Part :=
  { v with bitmap := update v.bitmap b used }

def store (v : Part) (b : Nat) (bytes : Bytes) : Part :=
  { v with data := update v.data b bytes }

def log (v : Part) (b : Nat) : Part :=
  { v with
    ops := v.ops.map (·.insert b)
    lh := v.lh.insert b }

/-- `log_write` with room for the block; `others` says whether another process is in a
transaction. -/
def record (v : Part) (others : Bool) (b : Nat) : Except Stop Part :=
  if v.ops = none ∧ others = false then
    .error (.panic .logWriteOutside)
  else
    .ok (v.log b)

/-- The actions that reach the part; `inum` is the number of inode `i`. -/
def exec (sb : Superblock) (i : Fin NINODE) (inum : Nat) (others : Bool) :
    (a : Act) -> Part -> Except Stop (Ans a × Part)
  | .panic p, _ => .error (.panic p)
  | .getInode j, v => if j = i then .ok (v.d, v) else .error .blocked
  | .update j u, v => if j = i then .ok ((), { v with d := u.apply v.d }) else .error .blocked
  | .iupdate j, v =>
    if j = i then
      ({ v with copy := v.d }.record others (sb.iblock inum)).map ((), ·)
    else
      .error .blocked
  | .ballocScan k, v =>
    match (List.range' (k * BPB) BPB).find? fun b => b < sb.size ∧ v.bitmap b = false with
    | some b =>
      ((v.mark b true).record others (sb.bblock b)).map fun v' => (some b, v')
    | none => .ok (none, v)
  | .bzero b, v =>
    if sb.IsData b then
      ((v.store b fun _ => 0).record others b).map ((), ·)
    else
      .error .wild
  | .bfree b, v =>
    if sb.size <= b then
      .error .wild
    else if v.bitmap b = false then
      .error (.panic .freeingFreeBlock)
    else
      ((v.mark b false).record others (sb.bblock b)).map ((), ·)
  | .readBlock b, v => if sb.IsData b then .ok (v.data b, v) else .error .wild
  | .writeBlock b off bytes logged, v =>
    if sb.IsData b then
      let v' := v.store b (Sys.overwrite (v.data b) off bytes)
      if logged then (v'.record others b).map ((), ·) else .ok ((), v')
    else
      .error .wild
  -- a read that has to allocate leaves the part
  | .grow reading, v => if reading then .error .blocked else .ok ((), v)
  | _, _ => .error .blocked

theorem record_lh {v v' : Part} {others : Bool} {b : Nat} (h : v.record others b = .ok v') :
    v.lh.length <= v'.lh.length := by
  unfold record at h
  split at h
  · cases h
  · cases h
    exact List.length_le_length_insert

theorem exec_lh {sb : Superblock} {i : Fin NINODE} {inum : Nat} {others : Bool} {a : Act}
    {v v' : Part} {r : Ans a} (h : exec sb i inum others a v = .ok (r, v')) :
    v.lh.length <= v'.lh.length := by
  have hlogged : forall {alpha : Type} {w : Part} {b : Nat} {x y : alpha},
      (w.record others b).map (x, ·) = .ok (y, v') -> w.lh = v.lh ->
      v.lh.length <= v'.lh.length := by
    intro alpha w b x y hrec hlh
    rcases map_eq_ok.mp hrec with ⟨w', hw, heq⟩
    cases heq
    rw [← hlh]
    exact record_lh hw
  cases a with
  | getInode j =>
    rw [exec] at h
    split at h <;> cases h
    exact le_rfl
  | update j u =>
    rw [exec] at h
    split at h <;> cases h
    exact le_rfl
  | iupdate j =>
    rw [exec] at h
    split at h
    · exact hlogged h rfl
    · cases h
  | ballocScan k =>
    rw [exec] at h
    split at h
    · exact hlogged h rfl
    · cases h
      exact le_rfl
  | bzero b =>
    rw [exec] at h
    split at h
    · exact hlogged h rfl
    · cases h
  | bfree b =>
    rw [exec] at h
    split at h
    · cases h
    split at h
    · cases h
    · exact hlogged h rfl
  | readBlock b =>
    rw [exec] at h
    split at h <;> cases h
    exact le_rfl
  | writeBlock b off bytes logged =>
    rw [exec] at h
    split at h
    · cases logged with
      | false =>
        cases h
        exact le_rfl
      | true => exact hlogged h rfl
    · cases h
  | grow reading =>
    rw [exec] at h
    split at h <;> cases h
    exact le_rfl
  | _ => cases h

end Part

/-!
## The whole state
-/

namespace Sys

variable {nproc : Nat}

def part (s : Sys nproc) (t : Fin nproc) (i : Fin NINODE) : Part :=
  {
    d := (s.itable i).d
    copy := s.disk.dinode (s.itable i).inum
    data := s.disk.data
    bitmap := s.disk.bitmap
    ops := s.ops t
    lh := s.lh
  }

def put (s : Sys nproc) (t : Fin nproc) (i : Fin NINODE) (v : Part) : Sys nproc :=
  { s with
    disk :=
      {
        dinode := update s.disk.dinode (s.itable i).inum v.copy
        data := v.data
        bitmap := v.bitmap
      }
    itable := update s.itable i { s.itable i with d := v.d }
    ops := update s.ops t v.ops
    lh := v.lh }

theorem put_part (s : Sys nproc) (t : Fin nproc) (i : Fin NINODE) :
    s.put t i (s.part t i) = s := by
  unfold put part
  simp only [update_eq_self]

theorem part_put (s : Sys nproc) (t : Fin nproc) (i : Fin NINODE) (v : Part) :
    (s.put t i v).part t i = v := by
  simp only [part, put, update_self]

def others (s : Sys nproc) (t : Fin nproc) : Bool :=
  decide (exists u, u ≠ t ∧ s.ops u ≠ none)

def strict (sb : Superblock) (t : Fin nproc) :
    (a : Act) -> Sys nproc -> Except Stop (Ans a × Sys nproc)
  | .grow true, _ => .error .wild
  | a, s => exec sb t a s

variable {sb : Superblock} {t : Fin nproc} {s : Sys nproc} {i : Fin NINODE}

theorem strict_eq_exec {a : Act} (h : a ≠ .grow true) : strict sb t a s = exec sb t a s := by
  unfold strict
  split
  · exact absurd rfl h
  · rfl

/-!
## One action
-/

theorem logWrite_eq {s' : Sys nproc} {b : Nat} (hrun : s.logWrite t b = .ok s') :
    exists ops lh, s' = { s with ops := ops, lh := lh } := by
  unfold logWrite at hrun
  split at hrun
  · cases hrun
  split at hrun
  · cases hrun
  split at hrun
  · cases hrun
  · cases hrun
    exact ⟨_, _, rfl⟩

theorem beginOp_eq {s' : Sys nproc} (hrun : s.beginOp t = .ok s') :
    s' = { s with ops := update s.ops t (some []) } := by
  unfold beginOp at hrun
  split at hrun
  · cases hrun
  · cases hrun
    rfl

theorem endOp_eq (s : Sys nproc) (t : Fin nproc) :
    exists lh, s.endOp t = { s with ops := update s.ops t none, lh := lh } := by
  unfold endOp
  dsimp only
  split
  · exact ⟨_, rfl⟩
  · exact ⟨_, rfl⟩

theorem put_logged {v : Part} {ops : Option (List Nat)} {lh : List Nat} :
    { s.put t i v with
      ops := update (s.put t i v).ops t ops
      lh := lh } =
      s.put t i
        { v with
          ops := ops
          lh := lh } := by
  simp only [put, update_idem]

theorem logWrite_put (s : Sys nproc) (t : Fin nproc) (i : Fin NINODE) (v : Part) (b : Nat) :
    (s.put t i v).logWrite t b = (v.record (s.others t) b).map (s.put t i) ∨
      LOGBLOCKS <= v.lh.length ∧ exists e, e.Full ∧ (s.put t i v).logWrite t b = .error e := by
  have hmine : (s.put t i v).ops t = v.ops := update_self _ _ _
  have hlh : (s.put t i v).lh = v.lh := rfl
  have hiff : (forall u, (s.put t i v).ops u = none) <-> v.ops = none ∧ s.others t = false := by
    constructor
    · intro hall
      refine ⟨hmine.symm.trans (hall t), decide_eq_false ?_⟩
      rintro ⟨u, hu, hne⟩
      have hu' := hall u
      change update s.ops t v.ops u = none at hu'
      rw [update_of_ne hu] at hu'
      exact hne hu'
    · rintro ⟨hnone, hothers⟩ u
      rcases eq_or_ne u t with rfl | hu
      · exact hmine.trans hnone
      · change update s.ops t v.ops u = none
        rw [update_of_ne hu]
        by_contra hne
        exact of_decide_eq_false hothers ⟨u, hu, hne⟩
  unfold logWrite Part.record
  rw [hlh]
  by_cases hbuf : b ∉ v.lh ∧ NBUF <= v.lh.length
  · rw [if_pos hbuf]
    exact .inr ⟨hbuf.2, _, .inl rfl, rfl⟩
  rw [if_neg hbuf]
  by_cases hbig : LOGBLOCKS <= v.lh.length
  · rw [if_pos hbig]
    exact .inr ⟨hbig, _, .inr rfl, rfl⟩
  rw [if_neg hbig]
  left
  by_cases hall : forall u, (s.put t i v).ops u = none
  · rw [if_pos hall, if_pos (hiff.mp hall)]
    rfl
  · rw [if_neg hall, if_neg (fun h => hall (hiff.mpr h)), hmine, put_logged]
    rfl

theorem logged_put {alpha : Type} (s : Sys nproc) (t : Fin nproc) (i : Fin NINODE) (v : Part)
    (b : Nat) (x : alpha) :
    ((s.put t i v).logWrite t b).map (x, ·) =
        ((v.record (s.others t) b).map (x, ·)).map (fun y => (y.1, s.put t i y.2)) ∨
      LOGBLOCKS <= v.lh.length ∧
        exists e, e.Full ∧ ((s.put t i v).logWrite t b).map (x, ·) = .error e := by
  rcases logWrite_put s t i v b with heq | ⟨hfull, e, he, heq⟩
  · left
    rw [heq]
    cases v.record (s.others t) b <;> rfl
  · right
    rw [heq]
    exact ⟨hfull, e, he, rfl⟩

theorem exec_put (a : Act) (v : Part)
    (h : Part.exec sb i (s.itable i).inum (s.others t) a v ≠ .error .blocked) :
    exec sb t a (s.put t i v) =
        (Part.exec sb i (s.itable i).inum (s.others t) a v).map
          (fun x => (x.1, s.put t i x.2)) ∨
      LOGBLOCKS <= v.lh.length ∧ exists e, e.Full ∧ exec sb t a (s.put t i v) = .error e := by
  have hi : (s.put t i v).itable i = { s.itable i with d := v.d } := update_self _ _ _
  cases a with
  | panic p => exact .inl rfl
  | getInode j =>
    rw [Part.exec] at h ⊢
    split at h
    · next hj =>
        subst hj
        left
        rw [exec, hi, if_pos rfl]
        rfl
    · exact absurd rfl h
  | update j u =>
    rw [Part.exec] at h ⊢
    split at h
    · next hj =>
        subst hj
        left
        rw [exec, hi, if_pos rfl]
        simp only [put, setInode, update_idem, Except.map]
    · exact absurd rfl h
  | iupdate j =>
    rw [Part.exec] at h ⊢
    split at h
    · next hj =>
        subst hj
        have hset : (s.put t j v).setDinode (s.itable j).inum v.d =
            s.put t j { v with copy := v.d } := by
          simp only [put, setDinode, update_idem]
        rw [exec, iupdate, hi, if_pos rfl, hset]
        exact logged_put s t j _ _ ()
    · exact absurd rfl h
  | ballocScan k =>
    have hbit : (s.put t i v).disk.bitmap = v.bitmap := rfl
    rw [exec, ballocScan, Part.exec, hbit]
    cases (List.range' (k * BPB) BPB).find? fun b => b < sb.size ∧ v.bitmap b = false with
    | none => exact .inl rfl
    | some b => exact logged_put s t i (v.mark b true) _ (some b)
  | bzero b =>
    rw [exec, bzero, Part.exec]
    split
    · exact logged_put s t i (v.store b fun _ => 0) _ ()
    · exact .inl rfl
  | bfree b =>
    have hbit : (s.put t i v).disk.bitmap = v.bitmap := rfl
    rw [exec, bfree, Part.exec, hbit]
    split
    · exact .inl rfl
    split
    · exact .inl rfl
    · exact logged_put s t i (v.mark b false) _ ()
  | readBlock b =>
    left
    rw [exec, Part.exec]
    split
    · rfl
    · rfl
  | writeBlock b off bytes logged =>
    rw [exec, writeBlock, Part.exec]
    split
    · cases logged with
      | false => exact .inl rfl
      | true => exact logged_put s t i (v.store b (overwrite (v.data b) off bytes)) _ ()
    · exact .inl rfl
  | grow reading =>
    cases reading with
    | true => exact absurd rfl h
    | false => exact .inl rfl
  | _ => exact absurd rfl h

theorem run_put {alpha : Type} {p : Prog alpha} {v : Part}
    (hrun : p.run (Part.exec sb i (s.itable i).inum (s.others t)) v ≠ .error .blocked) :
    p.run (exec sb t) (s.put t i v) =
        (p.run (Part.exec sb i (s.itable i).inum (s.others t)) v).map
          (fun x => (x.1, s.put t i x.2)) ∨
      exists e, e.Full ∧ p.run (exec sb t) (s.put t i v) = .error e ∧
        forall x v', p.run (Part.exec sb i (s.itable i).inum (s.others t)) v = .ok (x, v') ->
          LOGBLOCKS <= v'.lh.length :=
  Program.run_map (fun _ _ _ _ hok hfull => hfull.trans (Part.exec_lh hok)) exec_put hrun

end Sys
end Fs
end Xv6
