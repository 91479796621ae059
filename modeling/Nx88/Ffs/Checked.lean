import Nx88.Ffs.Reader
import Nx88.Lib.Loops
/-!
# The FFS reader, with what can go wrong in it

`ffs.c` once more, for images of any content: a division by zero and a directory
read beyond its length are faults, a buffer knows which of its bytes have been
written, and a directory scan may never end.
-/

namespace Nx88.Ffs.Checked

open Lib.Loops

inductive Fault where
  | divide
  /-- a directory byte at or beyond the length -/
  | outside (i : Nat)
deriving Repr, DecidableEq

def div (a b : Nat) : Except Fault Nat := if b = 0 then .error .divide else .ok (a / b)

def mod (a b : Nat) : Except Fault Nat := if b = 0 then .error .divide else .ok (a % b)

/-! ## Inodes and blocks -/

def dinodeByte (sb : FfsSb) (ino : Nat) : Except Fault Nat := do
  let cg ← div ino sb.ipg
  let cgstart := u32 (u32 (sb.fpg * cg) + u32 (sb.cgoffset * (cg &&& (2 ^ 32 - 1 - sb.cgmask))))
  let inGroup ← mod ino sb.ipg
  let block ← div inGroup sb.inopb
  let fragaddr := u32 (u32 (cgstart + sb.iblkno) + u32 (block * sb.frag))
  let inBlock ← mod ino sb.inopb
  return u32 (blockbyte sb fragaddr + u32 (inBlock * FFS_DINODE_SIZE))

def bmap (img : Image) (sb : FfsSb) (db ib : Nat → Nat) (bn : Nat) : Except Fault Nat :=
  let nind := sb.nindir
  if bn < 12 then return db bn
  else if bn - 12 < nind then return ind img sb (ib 0) (bn - 12)
  else if bn - 12 - nind < u32 (nind * nind) then do
    let q ← div (bn - 12 - nind) nind
    let r ← mod (bn - 12 - nind) nind
    return ind img sb (ind img sb (ib 1) q) r
  else return 0

abbrev Cells := Nat → Option U8

def Cells.fill (cells : Cells) (off : Nat) (src : List U8) : Cells := fun i =>
  if off ≤ i ∧ i < off + src.length then src[i - off]? else cells i

def copyBlock (img : Image) (sb : FfsSb) (db ib : Nat → Nat) (size : Nat) (cells : Cells)
    (k : Nat) : Except Fault Cells := do
  let fa ← bmap img sb db ib k
  let n := if u32 ((k + 1) * sb.bsize) ≤ size then sb.bsize
    else u32 (size + 2 ^ 32 - u32 (k * sb.bsize))
  return cells.fill (u32 (k * sb.bsize))
    (if fa ≠ 0 then dread img (blockbyte sb fa) n else List.replicate n 0)

/-- A loaded inode.  `fresh` is what `malloc` handed out. -/
structure Loaded where
  cells : Cells
  fresh : Nat → U8
  len : Nat
  mode : Nat

/-- `malloc`: what a new buffer of that size holds, if there is memory for it. -/
abbrev Malloc := Nat → Option (Nat → U8)

def loadDinode (img : Image) (malloc : Malloc) (sb : FfsSb) (din : List U8) :
    Except Fault (Option Loaded) :=
  let size := be32 (din.drop 0x0C)
  let db := fun i => be32 (din.drop (0x28 + 4 * i))
  let ib := fun i => be32 (din.drop (0x58 + 4 * i))
  match malloc (if size ≠ 0 then size else 1) with
  | none => return none
  | some fresh => do
    let nblk ← div (u32 (size + sb.bsize - 1)) sb.bsize
    let cells ← (List.range nblk).foldlM (copyBlock img sb db ib size) (fun _ => none)
    return some ⟨cells, fresh, size, be16 din⟩

def readIno (img : Image) (malloc : Malloc) (sb : FfsSb) (ino : Nat) :
    Except Fault (Option Loaded) := do
  let byteoff ← dinodeByte sb ino
  loadDinode img malloc sb (dread img byteoff FFS_DINODE_SIZE)

/-! ## Name lookup -/

namespace Loaded

def byte (d : Loaded) (i : Nat) : U8 := (d.cells i).getD (d.fresh i)

/-- The byte `dir[i]`. -/
def peek (d : Loaded) (i : Nat) : Except Fault U8 :=
  if i < d.len then .ok (d.byte i) else .error (.outside i)

/-- The inode number, the record length and the name length of the record at `off`. -/
def record (d : Loaded) (off : U32) : Except Fault (Nat × Nat × Nat) := do
  let i0 ← d.peek off.toNat
  let i1 ← d.peek (off.toNat + 1)
  let i2 ← d.peek (off.toNat + 2)
  let i3 ← d.peek (off.toNat + 3)
  -- these indices are computed in 32 bits
  let r0 ← d.peek (off + 4).toNat
  let r1 ← d.peek (off + 5).toNat
  let n0 ← d.peek (off + 6).toNat
  let n1 ← d.peek (off + 7).toNat
  return (be32 [i0, i1, i2, i3], be16 [r0, r1], be16 [n0, n1])

/-- `!memcmp(dir + i, comp, ..)`. -/
def memcmp (d : Loaded) : Nat → List U8 → Except Fault Bool
  | _, [] => return true
  | i, c :: comp => do
    let b ← d.peek i
    let same ← d.memcmp (i + 1) comp
    return b = c && same

/-- The body of the directory scan.  It ends with the inode number found, 0 for
none. -/
def look (d : Loaded) (comp : List U8) (off : U32) : Turn U32 (Except Fault Nat) :=
  if (off + 8).toNat ≤ d.len then
    match d.record off with
    | .error e => .done (.error e)
    | .ok (dino, reclen, namlen) =>
      if reclen = 0 then .done (.ok 0)
      else if dino ≠ 0 ∧ namlen = comp.length then
        match d.memcmp (off.toNat + 8) comp with
        | .error e => .done (.error e)
        | .ok true => .done (.ok dino)
        | .ok false => .next (off + BitVec.ofNat 32 reclen)
      else .next (off + BitVec.ofNat 32 reclen)
  else .done (.ok 0)

def isDir (d : Loaded) : Prop := d.mode &&& 0xF000 = 0x4000

def isRegular (d : Loaded) : Prop := d.mode &&& 0xF000 = 0x8000

instance (d : Loaded) : Decidable d.isDir := by unfold isDir; infer_instance

instance (d : Loaded) : Decidable d.isRegular := by unfold isRegular; infer_instance

end Loaded

/-- What a call comes to in `n` turns of each scan: nothing yet, or a fault, or the
`-1` of the C code, or a result. -/
abbrev Outcome (α : Type) := Option (Except Fault (Option α))

def nameiStep (n : Nat) (img : Image) (malloc : Malloc) (sb : FfsSb) (ino : Nat)
    (comp : List U8) : Outcome Nat :=
  match readIno img malloc sb ino with
  | .error e => some (.error e)
  | .ok none => some (.ok none)
  | .ok (some dir) =>
    if dir.isDir then
      (iterate (dir.look comp) n 0).map fun found =>
        found.map fun ino => if ino = 0 then none else some ino
    else some (.ok none)

/-- The next component of a path and what follows it, if there is one. -/
def nextName (path : List U8) : Option (List U8 × List U8) :=
  let p := path.dropWhile (· = SLASH)
  if p = [] then none
  else
    let comp := (p.takeWhile (· ≠ SLASH)).take 255
    some (comp, p.drop comp.length)

def namei (n : Nat) (img : Image) (malloc : Malloc) (sb : FfsSb) :
    Nat → List U8 → Nat → Outcome Nat
  | 0, _, _ => none
  | fuel + 1, path, ino =>
    match nextName path with
    | none => some (.ok (some ino))
    | some (comp, rest) =>
      match nameiStep n img malloc sb ino comp with
      | some (.ok (some found)) => namei n img malloc sb fuel rest found
      | ended => ended

def ffsOpen (files : Nat → Image) (st : FfsState) (f : Nat) : FfsState × Bool :=
  -- new image, new geometry
  let st := if st.fp = some f then st else { fp := some f, sb := { st.sb with ok := false } }
  let (sb, ok) := ffsInit (files f) st.sb
  ({ st with sb := sb }, ok)

def ffsReadFile (n : Nat) (files : Nat → Image) (malloc : Malloc) (st : FfsState)
    (fp : Option Nat) (path : List U8) : FfsState × Outcome Loaded :=
  match fp with
  | none => (st, some (.ok none))
  | some f =>
    match ffsOpen files st f with
    | (st, false) => (st, some (.ok none))
    | (st, true) =>
      (st,
        match namei n (files f) malloc st.sb (path.length + 1) path FFS_ROOTINO with
        | some (.ok (some ino)) =>
          match readIno (files f) malloc st.sb ino with
          | .error e => some (.error e)
          | .ok none => some (.ok none)
          | .ok (some file) => some (.ok (if file.isRegular then some file else none))
        | some (.ok none) => some (.ok none)
        | some (.error e) => some (.error e)
        | none => none)

/-! ## Calls -/

/-- A call of `ffs_read_file`, with what the images hold at the time. -/
structure Call where
  files : Nat → Image
  fp : Option Nat
  path : List U8

/-- What a call leaves in the reader's state. -/
def Call.run (c : Call) (st : FfsState) : FfsState :=
  match c.fp with
  | none => st
  | some f => (ffsOpen c.files st f).1

def stateAfter (calls : List Call) : FfsState := calls.foldl (fun st c => c.run st) .initial

/-- The call ends without a fault, and if it succeeds, every byte it returns was
read from the image or zeroed. -/
def Safe (files : Nat → Image) (malloc : Malloc) (st : FfsState) (fp : Option Nat)
    (path : List U8) : Prop :=
  ∃ n r, (ffsReadFile n files malloc st fp path).2 = some (.ok r) ∧
    ∀ file, r = some file → ∀ i < file.len, file.cells i ≠ none

end Nx88.Ffs.Checked
