import Nx88.Machine
/-!
# Host files

A disk or file image as the emulator sees it through `fseek`, `fread` and
`fwrite`: a length and the bytes below it.
-/

namespace Nx88

namespace Image

/-- `fseek` to `off` and `fread` of `n` bytes: what there is, up to the end. -/
def read (f : Image) (off n : Nat) : List U8 :=
  (List.range (min n (f.size - off))).map (fun i => f.byte (off + i))

/-- `fseek` to `off` and `fwrite`: a gap before `off` reads as zeros. -/
def write (f : Image) (off : Nat) (bs : List U8) : Image where
  size := if bs = [] then f.size else max f.size (off + bs.length)
  byte := fun i =>
    if off ≤ i ∧ i < off + bs.length then bs.getD (i - off) 0
    else if i < f.size then f.byte i else 0

@[simp] theorem length_read (f : Image) (off n : Nat) :
    (f.read off n).length = min n (f.size - off) := by
  simp [read]

theorem getElem?_read (f : Image) (off n i : Nat) (h : i < min n (f.size - off)) :
    (f.read off n)[i]? = some (f.byte (off + i)) := by
  simp [read, List.getElem?_map, List.getElem?_range h]

end Image

end Nx88
