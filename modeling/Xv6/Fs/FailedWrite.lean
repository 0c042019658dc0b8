import Xv6.Fs.ReadWrite

/-!
# Writes that fail

A source that fails in the middle of a block leaves its first bytes in the buffer,
where a later read finds them until the buffer is used for another block.
-/

namespace Xv6
namespace Fs

open Lib

namespace Part

variable {sb : Superblock} {src : Src} {n off k p : Nat} {v v' w : Part} {r : Int}
  {bytes extra : List UInt8}

section

variable (h : Written sb src n off v r v' bytes extra)
include h

theorem Written.noHoles (hno : v.NoHoles) (hoff : off <= v.d.size) : v'.NoHoles := by
  refine h.wrote.noHoles hno hoff ?_
  have hsize := h.size_eq
  rw [List.length_append]
  omega

end

end Part

section

variable {nproc : Nat} {sb : Superblock} {s s' : Sys nproc} {t : Fin nproc} {i : Fin NINODE}
  {src : Src} {off n : Nat} {r : Int}

section

variable {v : Part} {bytes extra : List UInt8}
  (hw : Part.Written sb src n off (s.part t i) r v bytes extra) (hno : (s.part t i).NoHoles)
  (hle : off <= (s.part t i).d.size)

include hw hno hle

end

end

end Fs
end Xv6
