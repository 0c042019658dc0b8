import Xv6.Param
import Xv6.Lib.Program
import Xv6.Lib.LittleEndian
import Mathlib.Data.Fintype.Pi
import Mathlib.Algebra.Order.Ring.Nat

/-!
# The state of the file system

What `fs.c` and `file.c` share: the disk as it is seen through the buffer cache,
the inode table, the file table and the transactions.

The disk is given by its parts.  Inode blocks are the inodes in them and bitmap
blocks the bits in them; any other block is an array of bytes.  A block number
that the code takes from an inode is an access to the last kind, so one that lies
outside of the data area stops the machine.

Everything done under `itable.lock`, under `ftable.lock` or with one locked
buffer is one atomic action.
-/

namespace Xv6
namespace Fs

open Lib Function

instance : NeZero NINODE :=
  ⟨by decide⟩

/-!
## Inodes
-/

inductive FileType where
  | free
  | dir
  | file
  | device
deriving DecidableEq, Repr

instance (priority := 2000) neZero_addrs : NeZero (NDIRECT + 1) :=
  ⟨by decide⟩

/-- `struct dinode`, and the part of `struct inode` that is a copy of it. -/
structure Dinode where
  type : FileType
  major : Int
  minor : Int
  nlink : Int
  size : Nat
  addrs : Fin (NDIRECT + 1) -> Nat
deriving DecidableEq

def Dinode.zero : Dinode :=
  {
    type := .free
    major := 0
    minor := 0
    nlink := 0
    size := 0
    addrs := fun _ => 0
  }

def wrap16 (i : Int) : Int :=
  i.bmod (2 ^ 16)

def wrap32 (n : Nat) : Nat :=
  n % 2 ^ 32

inductive Update where
  | addr (k : Fin (NDIRECT + 1)) (b : Nat)
  | size (n : Nat)
  | nlinkAdd (d : Int)
  | typeZero

def Update.apply (d : Dinode) : Update -> Dinode
  | .addr k b => { d with addrs := update d.addrs k b }
  | .size n => { d with size := n }
  | .nlinkAdd x => { d with nlink := wrap16 (d.nlink + x) }
  | .typeZero => { d with type := .free }

/-- `struct inode`.  `lock` is the process that holds the sleep-lock. -/
structure Inode (nproc : Nat) where
  dev : Nat
  inum : Nat
  ref : Int
  lock : Option (Fin nproc)
  valid : Bool
  d : Dinode

/-!
## Files and processes
-/

inductive FdType where
  | none
  | inode
  | device
deriving DecidableEq, Repr

structure File where
  type : FdType
  ref : Int
  readable : Bool
  writable : Bool
  ip : Fin NINODE
  off : Nat
  major : Int

/-!
## Disk
-/

structure Superblock where
  size : Nat
  nblocks : Nat
  ninodes : Nat
  inodestart : Nat
  bmapstart : Nat

namespace Superblock

variable (sb : Superblock)

def iblock (inum : Nat) : Nat :=
  inum / IPB + sb.inodestart

def bblock (b : Nat) : Nat :=
  b / BPB + sb.bmapstart

def IsData (b : Nat) : Prop :=
  sb.size - sb.nblocks <= b ∧ b < sb.size

instance (b : Nat) : Decidable (sb.IsData b) :=
  inferInstanceAs (Decidable (_ ∧ _))

end Superblock

structure Disk where
  dinode : Nat -> Dinode
  bitmap : Nat -> Bool
  data : Nat -> Bytes

/-- `ops t` is the list of the blocks that process `t` has logged since its `begin_op`, `lh` that
of the blocks in the log header: all that has been logged since the last commit. -/
structure Sys (nproc : Nat) where
  disk : Disk
  itable : Fin NINODE -> Inode nproc
  ftable : Fin NFILE -> File
  ops : Fin nproc -> Option (List Nat)
  lh : List Nat

/-!
## Actions
-/

inductive Panic where
  | igetNoInodes
  | ilock
  | ilockNoType
  | iunlock
  | freeingFreeBlock
  | bmapOutOfRange
  | fileread
  | filewrite
  | bgetNoBuffers
  | logWriteTooBig
  | logWriteOutside
  -- `sched` with a spinlock held
  | schedLocks
deriving DecidableEq, Repr

inductive Stop where
  -- a lock is taken, or `begin_op` has to wait
  | blocked
  | panic (p : Panic)
  -- a null pointer, or a block number from an inode that is not that of a data block
  | wild
deriving DecidableEq, Repr

/-- The log header is full, and with it the buffer cache. -/
def Stop.Full (e : Stop) : Prop :=
  e = .panic .bgetNoBuffers ∨ e = .panic .logWriteTooBig

inductive Act where
  | panic (p : Panic)
  | beginOp
  | endOp
  | iget (dev inum : Nat)
  -- the first critical section of `iput`; the answer is whether the inode is to be freed
  | iputFirst (i : Fin NINODE)
  | iputLast (i : Fin NINODE)
  | acquiresleep (i : Fin NINODE)
  | fill (i : Fin NINODE)
  | iunlock (i : Fin NINODE)
  | releasesleep (i : Fin NINODE)
  | getInode (i : Fin NINODE)
  | update (i : Fin NINODE) (u : Update)
  | invalidate (i : Fin NINODE)
  | claim (inum : Nat) (type : FileType)
  | readDinode (inum : Nat)
  | iupdate (i : Fin NINODE)
  | ballocScan (k : Nat)
  | bzero (b : Nat)
  | bfree (b : Nat)
  | readBlock (b : Nat)
  | writeBlock (b off : Nat) (bytes : List UInt8) (logged : Bool)
  -- `bmap` finds that it has to allocate a block, on behalf of `readi` or of `writei`
  | grow (reading : Bool)
  | getFile (f : Fin NFILE)
  | setOff (f : Fin NFILE) (off : Nat)

@[reducible]
def Ans : Act -> Type
  | .panic _ => Empty
  | .iget _ _ => Fin NINODE
  | .iputFirst _ => Bool
  | .getInode _ => Dinode
  | .claim _ _ => Bool
  | .readDinode _ => Dinode
  | .ballocScan _ => Option Nat
  | .readBlock _ => Bytes
  | .getFile _ => File
  | _ => Unit

namespace Sys

variable {nproc : Nat}

def setInode (s : Sys nproc) (i : Fin NINODE) (x : Inode nproc) : Sys nproc :=
  { s with itable := update s.itable i x }

def setFile (s : Sys nproc) (f : Fin NFILE) (x : File) : Sys nproc :=
  { s with ftable := update s.ftable f x }

def setDinode (s : Sys nproc) (inum : Nat) (d : Dinode) : Sys nproc :=
  { s with disk := { s.disk with dinode := update s.disk.dinode inum d } }

def setBit (s : Sys nproc) (b : Nat) (v : Bool) : Sys nproc :=
  { s with disk := { s.disk with bitmap := update s.disk.bitmap b v } }

def setData (s : Sys nproc) (b : Nat) (v : Bytes) : Sys nproc :=
  { s with disk := { s.disk with data := update s.disk.data b v } }

def outstanding (s : Sys nproc) : Nat :=
  (List.finRange nproc).countP fun u => (s.ops u).isSome

def beginOp (s : Sys nproc) (t : Fin nproc) : Except Stop (Sys nproc) :=
  if LOGBLOCKS < s.lh.length + (s.outstanding + 1) * MAXOPBLOCKS then
    .error .blocked
  else
    .ok { s with ops := update s.ops t (some []) }

def endOp (s : Sys nproc) (t : Fin nproc) : Sys nproc :=
  let s' := { s with ops := update s.ops t none }
  if s'.outstanding = 0 then { s' with lh := [] } else s'

/-- The `bread` of block `b` and `log_write` on it by process `t`.  The blocks in the header are
pinned, so the `bget` of another one needs a buffer besides theirs. -/
def logWrite (s : Sys nproc) (t : Fin nproc) (b : Nat) : Except Stop (Sys nproc) :=
  if b ∉ s.lh ∧ NBUF <= s.lh.length then
    .error (.panic .bgetNoBuffers)
  else if LOGBLOCKS <= s.lh.length then
    .error (.panic .logWriteTooBig)
  else if forall u, s.ops u = none then
    .error (.panic .logWriteOutside)
  else
    .ok { s with
      ops := update s.ops t ((s.ops t).map (·.insert b))
      lh := s.lh.insert b }

def iget (s : Sys nproc) (dev inum : Nat) : Except Stop (Fin NINODE × Sys nproc) :=
  match (List.finRange NINODE).find? fun i =>
      0 < (s.itable i).ref ∧ (s.itable i).dev = dev ∧ (s.itable i).inum = inum with
  | some i => .ok (i, s.setInode i { s.itable i with ref := (s.itable i).ref + 1 })
  | none =>
    match (List.finRange NINODE).find? fun i => (s.itable i).ref = 0 with
    | some i =>
      .ok (i, s.setInode i
        { s.itable i with
          dev := dev
          inum := inum
          ref := 1
          valid := false })
    | none => .error (.panic .igetNoInodes)

def iputFirst (s : Sys nproc) (t : Fin nproc) (i : Fin NINODE) :
    Except Stop (Bool × Sys nproc) :=
  if (s.itable i).ref = 1 ∧ (s.itable i).valid = true ∧ (s.itable i).d.nlink = 0 then
    -- `acquiresleep` would have to sleep if somebody had the lock
    if (s.itable i).lock = none then
      .ok (true, s.setInode i { s.itable i with lock := some t })
    else
      .error (.panic .schedLocks)
  else
    .ok (false, s.setInode i { s.itable i with ref := (s.itable i).ref - 1 })

def iputLast (s : Sys nproc) (i : Fin NINODE) : Sys nproc :=
  s.setInode i { s.itable i with ref := (s.itable i).ref - 1 }

def acquiresleep (s : Sys nproc) (t : Fin nproc) (i : Fin NINODE) : Except Stop (Sys nproc) :=
  if (s.itable i).ref < 1 then
    .error (.panic .ilock)
  else if (s.itable i).lock = none then
    .ok (s.setInode i { s.itable i with lock := some t })
  else
    .error .blocked

def fill (s : Sys nproc) (i : Fin NINODE) : Except Stop (Sys nproc) :=
  if (s.itable i).valid = true then
    .ok s
  else if (s.disk.dinode (s.itable i).inum).type = .free then
    .error (.panic .ilockNoType)
  else
    .ok (s.setInode i
      { s.itable i with
        d := s.disk.dinode (s.itable i).inum
        valid := true })

def iunlock (s : Sys nproc) (t : Fin nproc) (i : Fin NINODE) : Except Stop (Sys nproc) :=
  if (s.itable i).lock ≠ some t ∨ (s.itable i).ref < 1 then
    .error (.panic .iunlock)
  else
    .ok (s.setInode i { s.itable i with lock := none })

def releasesleep (s : Sys nproc) (i : Fin NINODE) : Sys nproc :=
  s.setInode i { s.itable i with lock := none }

def claim (sb : Superblock) (s : Sys nproc) (t : Fin nproc) (inum : Nat) (type : FileType) :
    Except Stop (Bool × Sys nproc) :=
  if (s.disk.dinode inum).type = .free then
    ((s.setDinode inum { Dinode.zero with type := type }).logWrite t (sb.iblock inum)).map
      fun s' => (true, s')
  else
    .ok (false, s)

def iupdate (sb : Superblock) (s : Sys nproc) (t : Fin nproc) (i : Fin NINODE) :
    Except Stop (Sys nproc) :=
  (s.setDinode (s.itable i).inum (s.itable i).d).logWrite t (sb.iblock (s.itable i).inum)

def ballocScan (sb : Superblock) (s : Sys nproc) (t : Fin nproc) (k : Nat) :
    Except Stop (Option Nat × Sys nproc) :=
  match (List.range' (k * BPB) BPB).find? fun b =>
      b < sb.size ∧ s.disk.bitmap b = false with
  | some b => ((s.setBit b true).logWrite t (sb.bblock b)).map fun s' => (some b, s')
  | none => .ok (none, s)

def bzero (sb : Superblock) (s : Sys nproc) (t : Fin nproc) (b : Nat) : Except Stop (Sys nproc) :=
  if sb.IsData b then (s.setData b fun _ => 0).logWrite t b else .error .wild

def bfree (sb : Superblock) (s : Sys nproc) (t : Fin nproc) (b : Nat) : Except Stop (Sys nproc) :=
  if sb.size <= b then
    .error .wild
  else if s.disk.bitmap b = false then
    .error (.panic .freeingFreeBlock)
  else
    (s.setBit b false).logWrite t (sb.bblock b)

def overwrite (v : Bytes) (off : Nat) (bytes : List UInt8) : Bytes :=
  fun j => if off <= j then bytes.getD (j - off) (v j) else v j

def writeBlock (sb : Superblock) (s : Sys nproc) (t : Fin nproc) (b off : Nat)
    (bytes : List UInt8) (logged : Bool) : Except Stop (Sys nproc) :=
  if sb.IsData b then
    let s' := s.setData b (overwrite (s.disk.data b) off bytes)
    if logged then s'.logWrite t b else .ok s'
  else
    .error .wild

def exec (sb : Superblock) (t : Fin nproc) :
    (a : Act) -> Sys nproc -> Except Stop (Ans a × Sys nproc)
  | .panic p, _ => .error (.panic p)
  | .beginOp, s => (s.beginOp t).map ((), ·)
  | .endOp, s => .ok ((), s.endOp t)
  | .iget dev inum, s => s.iget dev inum
  | .iputFirst i, s => s.iputFirst t i
  | .iputLast i, s => .ok ((), s.iputLast i)
  | .acquiresleep i, s => (s.acquiresleep t i).map ((), ·)
  | .fill i, s => (s.fill i).map ((), ·)
  | .iunlock i, s => (s.iunlock t i).map ((), ·)
  | .releasesleep i, s => .ok ((), s.releasesleep i)
  | .getInode i, s => .ok ((s.itable i).d, s)
  | .update i u, s => .ok ((), s.setInode i { s.itable i with d := u.apply (s.itable i).d })
  | .invalidate i, s => .ok ((), s.setInode i { s.itable i with valid := false })
  | .claim inum type, s => s.claim sb t inum type
  | .readDinode inum, s => .ok (s.disk.dinode inum, s)
  | .iupdate i, s => (s.iupdate sb t i).map ((), ·)
  | .ballocScan k, s => s.ballocScan sb t k
  | .bzero b, s => (s.bzero sb t b).map ((), ·)
  | .bfree b, s => (s.bfree sb t b).map ((), ·)
  | .readBlock b, s => if sb.IsData b then .ok (s.disk.data b, s) else .error .wild
  | .writeBlock b off bytes logged, s => (s.writeBlock sb t b off bytes logged).map ((), ·)
  | .grow _, s => .ok ((), s)
  | .getFile f, s => .ok (s.ftable f, s)
  | .setOff f off, s => .ok ((), s.setFile f { s.ftable f with off := off })

end Sys
end Fs
end Xv6
