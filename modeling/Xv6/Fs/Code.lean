import Xv6.Fs.State

/-!
# The code of the file system

The functions of `fs.c` and `file.c` as programs over the actions of
`Xv6.Fs.State`.  Memory that a call is given is as it is found there: a source
says which of its bytes can be read and a destination which can be written.
-/

namespace Xv6
namespace Fs

open Lib

abbrev Prog := Program Act Ans

def perform (a : Act) : Prog (Ans a) :=
  Program.perform a

def panic {alpha : Type} (p : Panic) : Prog alpha :=
  .act (.panic p) nofun

/-!
## Blocks
-/

section

variable (sb : Superblock)

/-- The loop of `balloc` from bitmap block `k` on, `n` blocks before the end. -/
def ballocLoop : Nat -> Nat -> Prog Nat
  | _, 0 => pure 0
  | k, n + 1 => do
      match ← perform (.ballocScan k) with
      | some b =>
        perform (.bzero b)
        return b
      | none => ballocLoop (k + 1) n

def balloc : Prog Nat :=
  ballocLoop 0 ((sb.size + BPB - 1) / BPB)

/-!
## Inodes
-/

def iallocLoop (dev : Nat) (type : FileType) : Nat -> Nat -> Prog (Option (Fin NINODE))
  | _, 0 => pure none
  | inum, n + 1 => do
      if ← perform (.claim inum type) then
        return some (← perform (.iget dev inum))
      else
        iallocLoop dev type (inum + 1) n

def ialloc (dev : Nat) (type : FileType) : Prog (Option (Fin NINODE)) :=
  iallocLoop dev type 1 (sb.ninodes - 1)

def ilock (i : Fin NINODE) : Prog Unit := do
  perform (.acquiresleep i)
  perform (.fill i)

def entry (v : Bytes) (j : Nat) : Nat :=
  v.getLE (4 * j) 4

def toBytes (k w : Nat) : List UInt8 :=
  (List.range k).map fun j => UInt8.ofNat (w / 256 ^ j)

def bmap (i : Fin NINODE) (bn : Nat) (reading : Bool) : Prog Nat :=
  if h : bn < NDIRECT then do
    let k : Fin (NDIRECT + 1) := ⟨bn, Nat.lt_succ_of_lt h⟩
    let d ← perform (.getInode i)
    if d.addrs k = 0 then
      perform (.grow reading)
      let addr ← balloc sb
      if addr = 0 then
        return 0
      perform (.update i (.addr k addr))
      return addr
    else
      return d.addrs k
  else if bn - NDIRECT < NINDIRECT then do
    let bn := bn - NDIRECT
    let d ← perform (.getInode i)
    if d.addrs (Fin.last NDIRECT) = 0 then
      perform (.grow reading)
      let addr ← balloc sb
      if addr = 0 then
        return 0
      perform (.update i (.addr (Fin.last NDIRECT) addr))
      bmapIndirect addr bn
    else
      bmapIndirect (d.addrs (Fin.last NDIRECT)) bn
  else
    panic .bmapOutOfRange
where
  bmapIndirect (ind bn : Nat) : Prog Nat := do
    let a ← perform (.readBlock ind)
    if entry a bn = 0 then
      perform (.grow reading)
      let addr ← balloc sb
      if addr = 0 then
        return 0
      perform (.writeBlock ind (4 * bn) (toBytes 4 addr) true)
      return addr
    else
      return entry a bn

def itruncDirect (i : Fin NINODE) : List (Fin NDIRECT) -> Prog Unit
  | [] => pure ()
  | k :: ks => do
      let d ← perform (.getInode i)
      if d.addrs k.castSucc = 0 then
        itruncDirect i ks
      else
        perform (.bfree (d.addrs k.castSucc))
        perform (.update i (.addr k.castSucc 0))
        itruncDirect i ks

def itruncIndirect (a : Bytes) : List Nat -> Prog Unit
  | [] => pure ()
  | j :: js => do
      if entry a j = 0 then
        itruncIndirect a js
      else
        perform (.bfree (entry a j))
        itruncIndirect a js

def itrunc (i : Fin NINODE) : Prog Unit := do
  itruncDirect i (List.finRange NDIRECT)
  let d ← perform (.getInode i)
  if d.addrs (Fin.last NDIRECT) = 0 then
    itruncEnd
  else
    let a ← perform (.readBlock (d.addrs (Fin.last NDIRECT)))
    itruncIndirect a (List.range NINDIRECT)
    perform (.bfree (d.addrs (Fin.last NDIRECT)))
    perform (.update i (.addr (Fin.last NDIRECT) 0))
    itruncEnd
where
  itruncEnd : Prog Unit := do
    perform (.update i (.size 0))
    perform (.iupdate i)

def iput (i : Fin NINODE) : Prog Unit := do
  if ← perform (.iputFirst i) then
    itrunc i
    perform (.update i .typeZero)
    perform (.iupdate i)
    perform (.invalidate i)
    perform (.releasesleep i)
    perform (.iputLast i)
  else
    return ()

def ireclaimLoop : Nat -> Nat -> Prog Unit
  | _, 0 => pure ()
  | inum, n + 1 => do
      let d ← perform (.readDinode inum)
      if d.type ≠ .free ∧ d.nlink = 0 then
        let ip ← perform (.iget ROOTDEV inum)
        perform .beginOp
        ilock ip
        perform (.iunlock ip)
        iput ip
        perform .endOp
        ireclaimLoop (inum + 1) n
      else
        ireclaimLoop (inum + 1) n

def ireclaim : Prog Unit :=
  ireclaimLoop 1 (sb.ninodes - 1)

/-!
## Contents
-/

abbrev Dst := Nat -> Bool

abbrev Src := Nat -> Option UInt8

def Dst.kernel : Dst :=
  fun _ => true

def Src.kernel (bytes : List UInt8) : Src :=
  fun j => bytes[j]?

def slice (v : Bytes) (off m : Nat) : List UInt8 :=
  (List.range m).map fun j => v (off + j)

/-- The loop of `readi`.  `n` bytes are wanted; those read so far are `got`. -/
def readiLoop (i : Fin NINODE) (dst : Dst) (n : Nat) :
    Nat -> Nat -> List UInt8 -> Prog (Int × List UInt8)
  | 0, _, got => pure (got.length, got)
  | fuel + 1, off, got => do
      if got.length < n then
        let addr ← bmap sb i (off / BSIZE) true
        if addr = 0 then
          return (got.length, got)
        let v ← perform (.readBlock addr)
        let m := min (n - got.length) (BSIZE - off % BSIZE)
        let chunk := slice v (off % BSIZE) m
        if (List.range m).all fun j => dst (got.length + j) then
          readiLoop i dst n fuel (off + m) (got ++ chunk)
        else
          return (-1, got ++ chunk.take ((List.range m).takeWhile
            fun j => dst (got.length + j)).length)
      else
        return (got.length, got)

def readi (i : Fin NINODE) (dst : Dst) (off n : Nat) : Prog (Int × List UInt8) := do
  let d ← perform (.getInode i)
  if d.size < off ∨ wrap32 (off + n) < off then
    return (0, [])
  let n := if d.size < wrap32 (off + n) then d.size - off else n
  readiLoop sb i dst n n off []

/-- The bytes `j`, ..., `j + m - 1` of a source up to the first that cannot be read. -/
def Src.readable (src : Src) (j m : Nat) : List UInt8 :=
  ((List.range m).map fun l => src (j + l)).takeWhile Option.isSome |>.filterMap id

def writeiLoop (i : Fin NINODE) (src : Src) (n : Nat) : Nat -> Nat -> Nat -> Prog (Nat × Nat)
  | 0, off, tot => pure (tot, off)
  | fuel + 1, off, tot => do
      if tot < n then
        let addr ← bmap sb i (off / BSIZE) false
        if addr = 0 then
          return (tot, off)
        let m := min (n - tot) (BSIZE - off % BSIZE)
        let bytes := src.readable tot m
        if bytes.length = m then
          perform (.writeBlock addr (off % BSIZE) bytes true)
          writeiLoop i src n fuel (off + m) (tot + m)
        else
          -- `either_copyin` has stored what it could read
          perform (.writeBlock addr (off % BSIZE) bytes false)
          return (tot, off)
      else
        return (tot, off)

def writei (i : Fin NINODE) (src : Src) (off n : Nat) : Prog Int := do
  let d ← perform (.getInode i)
  if d.size < off ∨ wrap32 (off + n) < off then
    return -1
  if MAXFILE * BSIZE < wrap32 (off + n) then
    return -1
  let (tot, off) ← writeiLoop sb i src n n off 0
  let d ← perform (.getInode i)
  if d.size < off then
    perform (.update i (.size off))
  perform (.iupdate i)
  return tot

/-!
## Files
-/

/-- The devices are left out: their reads and writes do not touch the file system. -/
def fileread (f : Fin NFILE) (dst : Dst) (n : Int) : Prog Int := do
  let x ← perform (.getFile f)
  if x.readable = false then
    return -1
  match x.type with
  | .none => panic .fileread
  | .device => return -1
  | .inode =>
    ilock x.ip
    let x' ← perform (.getFile f)
    let (r, _) ← readi sb x.ip dst x'.off (n % 2 ^ 32).toNat
    if 0 < r then
      perform (.setOff f (wrap32 (x'.off + r.toNat)))
    perform (.iunlock x.ip)
    return r

def filewriteLoop (f : Fin NFILE) (ip : Fin NINODE) (src : Src) (n : Nat) :
    Nat -> Nat -> Prog Int
  | 0, i => return if i = n then (n : Int) else -1
  | fuel + 1, i => do
      if i < n then
        let n1 := min (n - i) ((MAXOPBLOCKS - 1 - 1 - 2) / 2 * BSIZE)
        perform .beginOp
        ilock ip
        let x ← perform (.getFile f)
        let r ← writei sb ip (fun j => src (i + j)) x.off n1
        if 0 < r then
          perform (.setOff f (wrap32 (x.off + r.toNat)))
        perform (.iunlock ip)
        perform .endOp
        if r ≠ n1 then
          return -1
        filewriteLoop f ip src n fuel (i + n1)
      else
        return n

def filewrite (f : Fin NFILE) (src : Src) (n : Int) : Prog Int := do
  let x ← perform (.getFile f)
  if x.writable = false then
    return -1
  match x.type with
  | .none => panic .filewrite
  | .device => return -1
  | .inode =>
    -- a negative length leaves the loop at once with `i != n`
    if n < 0 then
      return -1
    filewriteLoop sb f x.ip src n.toNat n.toNat 0

end

end Fs
end Xv6
