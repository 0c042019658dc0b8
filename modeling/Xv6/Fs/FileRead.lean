import Xv6.Fs.ReadWrite

/-!
# `fileread`

How much one read of an open file delivers, for every length, and where it leaves the offset.
A length is an `int` in `fileread` and a `uint` in `readi`.
-/

namespace Xv6
namespace Fs

open Lib

variable {nproc : Nat}

/-!
## Actions that leave the file table
-/

def Quiet : Act -> Prop
  | .panic _ => True
  | .getInode _ => True
  | .update _ _ => True
  | .iupdate _ => True
  | .ballocScan _ => True
  | .bzero _ => True
  | .readBlock _ => True
  | .writeBlock _ _ _ _ => True
  | .grow _ => True
  | _ => False

def quiet : Rules Act Ans Unit where
  may := fun a _ => Quiet a
  does := fun _ _ _ _ => True

section

variable {sb : Superblock} {t : Fin nproc} {s s' : Sys nproc}

theorem quiet_ballocLoop (k n : Nat) :
    quiet.wp (ballocLoop k n : Prog Nat) (fun _ _ => True) () := by
  induction n generalizing k with
  | zero => trivial
  | succ n ih =>
    refine Rules.wp_act trivial ?_
    intro r o _
    cases r with
    | some b => exact Rules.wp_act trivial fun _ _ _ => trivial
    | none => exact ih (k + 1)

theorem quiet_balloc : quiet.wp (balloc sb : Prog Nat) (fun _ _ => True) () :=
  quiet_ballocLoop _ _

theorem quiet_bmapIndirect (reading : Bool) (ind bn : Nat) :
    quiet.wp (bmap.bmapIndirect sb reading ind bn : Prog Nat) (fun _ _ => True) () := by
  refine Rules.wp_act trivial fun a _ _ => ?_
  split
  · refine Rules.wp_act trivial fun _ _ _ => ?_
    refine Rules.wp_call quiet_balloc fun addr _ _ => ?_
    split
    · trivial
    · exact Rules.wp_act trivial fun _ _ _ => trivial
  · trivial

theorem quiet_bmap (i : Fin NINODE) (bn : Nat) (reading : Bool) :
    quiet.wp (bmap sb i bn reading : Prog Nat) (fun _ _ => True) () := by
  unfold bmap
  split
  · refine Rules.wp_act trivial fun d _ _ => ?_
    split
    · refine Rules.wp_act trivial fun _ _ _ => ?_
      refine Rules.wp_call quiet_balloc fun addr _ _ => ?_
      split
      · trivial
      · exact Rules.wp_act trivial fun _ _ _ => trivial
    · trivial
  · split
    · refine Rules.wp_act trivial fun d _ _ => ?_
      split
      · refine Rules.wp_act trivial fun _ _ _ => ?_
        refine Rules.wp_call quiet_balloc fun addr _ _ => ?_
        split
        · trivial
        · refine Rules.wp_act trivial fun _ _ _ => ?_
          exact quiet_bmapIndirect _ _ _
      · exact quiet_bmapIndirect _ _ _
    · exact ⟨trivial, nofun⟩

variable {n off : Nat} {i : Fin NINODE} {dst : Dst} {f : Fin NFILE} {bytes : List UInt8}

theorem wrap32_cases (hoff : off < 2 ^ 32) (hn : n < 2 ^ 32) :
    off + n < 2 ^ 32 ∧ wrap32 (off + n) = off + n ∨
      2 ^ 32 <= off + n ∧ wrap32 (off + n) = off + n - 2 ^ 32 := by
  unfold wrap32
  omega

def Sys.dinodeOf (s : Sys nproc) (i : Fin NINODE) : Dinode :=
  if (s.itable i).valid = true then (s.itable i).d else s.disk.dinode (s.itable i).inum

def copied (mem : Nat -> UInt8) (addr : Nat) (bytes : List UInt8) (a : Nat) : UInt8 :=
  if addr <= a ∧ a < addr + bytes.length then bytes.getD (a - addr) 0 else mem a

/-- What a read of `n` bytes at the offset `off` may have done when it returns `r`. -/
structure Bounded (s' : Sys nproc) (f : Fin NFILE) (off : Nat) (n r : Int) (bytes : List UInt8) :
    Prop where
  memory : forall mem addr a, copied mem addr bytes a ≠ mem a ->
    addr <= a ∧ (a : Int) < addr + max n 0
  result : r <= max n 0
  offset : ((s'.ftable f).off : Int) = off + max r 0

theorem count_le {size : Nat} {n : Int} (hint : -2 ^ 31 <= n ∧ n < 2 ^ 31) (hoff : off < 2 ^ 32)
    (hcond : 0 <= n ∨ -n <= off ∨ size <= off) :
    ((min (wrap32 (off + (n % 2 ^ 32).toNat)) size - off : Nat) : Int) <= max n 0 := by
  have hlt : (n % 2 ^ 32).toNat < 2 ^ 32 := by omega
  have hwrap := wrap32_cases hoff hlt
  have hmin := Nat.min_le_left (wrap32 (off + (n % 2 ^ 32).toNat)) size
  rcases hcond with hpos | hlate | hend
  · have heq : ((n % 2 ^ 32).toNat : Int) = n := by omega
    omega
  · by_cases hpos : 0 <= n
    · have heq : ((n % 2 ^ 32).toNat : Int) = n := by omega
      omega
    · have heq : ((n % 2 ^ 32).toNat : Int) = n + 2 ^ 32 := by omega
      omega
  · have hmin' := Nat.min_le_right (wrap32 (off + (n % 2 ^ 32).toNat)) size
    omega

/-- The file is open for reading in front of its end, the first byte can be stored, and `bmap` finds
the block or allocates one. -/
def Delivers (sb : Superblock) (t : Fin nproc) (s : Sys nproc) (f : Fin NFILE) (dst : Dst) : Prop :=
  (s.ftable f).readable = true ∧
    (s.ftable f).off < (s.dinodeOf (s.ftable f).ip).size ∧ dst 0 = true ∧
    ¬ exists s1, (do
      ilock (s.ftable f).ip
      bmap sb (s.ftable f).ip ((s.ftable f).off / BSIZE) true).run (Sys.exec sb t) s = .ok (0, s1)

end

instance : NeZero NFILE :=
  ⟨by decide⟩

end Fs
end Xv6
