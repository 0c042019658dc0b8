import Mathlib.Init

/-!
# Kernel parameters

The constants of `param.h` and `fs.h` that the modelled code reads, as the build
selects them (`LAB=util`).
-/

namespace Xv6

/-!
## `param.h`
-/

def NPROC : Nat := 64

def NOFILE : Nat := 16

def NFILE : Nat := 100

def NINODE : Nat := 50

def ROOTDEV : Nat := 1

def MAXARG : Nat := 32

def MAXOPBLOCKS : Nat := 10

def LOGBLOCKS : Nat := MAXOPBLOCKS * 3

def NBUF : Nat := MAXOPBLOCKS * 3

def USERSTACK : Nat := 2

/-!
## `fs.h`
-/

def BSIZE : Nat := 1024

def NDIRECT : Nat := 12

-- `BSIZE / sizeof(uint)`
def NINDIRECT : Nat := BSIZE / 4

def MAXFILE : Nat := NDIRECT + NINDIRECT

-- `BSIZE / sizeof(struct dinode)`
def IPB : Nat := BSIZE / 64

def BPB : Nat := BSIZE * 8

end Xv6
