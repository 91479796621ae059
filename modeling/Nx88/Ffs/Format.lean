import Mathlib.Data.Nat.Bits
import Nx88.Image
/-!
# The on-disk format of 4.3BSD FFS

An independent account of what an image holds, in unbounded arithmetic: numbers
are big-endian, an inode is one of the records of its group's inode area, a file
is its size and the blocks its pointer tree names, and a directory is a chain of
records.
-/

namespace Nx88.Ffs.Format

def num (f : Image) (off : Nat) : Nat → Nat
  | 0 => 0
  | n + 1 => num f off n * 256 + (f.byte (off + n)).toNat

def enc : Nat → Nat → List U8
  | 0, _ => []
  | k + 1, n => enc k (n / 256) ++ [BitVec.ofNat 8 n]

/-! ## Superblock -/

def SUPER : Nat := 8192

structure Geometry where
  iblkno : Nat
  cgoffset : Nat
  cgmask : Nat
  bsize : Nat
  fsize : Nat
  frag : Nat
  nindir : Nat
  inopb : Nat
  ipg : Nat
  fpg : Nat

def geometry (f : Image) : Geometry where
  iblkno := num f (SUPER + 0x10) 4
  cgoffset := num f (SUPER + 0x18) 4
  cgmask := num f (SUPER + 0x1C) 4
  bsize := num f (SUPER + 0x30) 4
  fsize := num f (SUPER + 0x34) 4
  frag := num f (SUPER + 0x38) 4
  nindir := num f (SUPER + 0x74) 4
  inopb := num f (SUPER + 0x78) 4
  ipg := num f (SUPER + 0xB8) 4
  fpg := num f (SUPER + 0xBC) 4

/-- The image is below 4 GiB and its superblock describes blocks of whole
fragments, of whole pointers and of whole inodes. -/
structure SuperOk (f : Image) : Prop where
  small : f.size < 2 ^ 32
  present : SUPER + 0x560 ≤ f.size
  magic : num f (SUPER + 0x55C) 4 = 0x011954
  block : 4096 ≤ (geometry f).bsize
  frags : (geometry f).bsize = (geometry f).frag * (geometry f).fsize
  pointers : (geometry f).bsize = (geometry f).nindir * 4
  inodes : (geometry f).bsize = (geometry f).inopb * 128
  group : 0 < (geometry f).ipg ∧ (geometry f).inopb ∣ (geometry f).ipg

/-! ## Inodes -/

/-- Where inode `ino` is stored: record `ino % ipg` of the inode area of its
cylinder group, whose start rotates with the group number. -/
def inodeAt (f : Image) (ino : Nat) : Nat :=
  let g := geometry f
  let cg := ino / g.ipg
  (g.fpg * cg + g.cgoffset * Nat.ldiff cg g.cgmask + g.iblkno) * g.fsize + ino % g.ipg * 128

def mode (f : Image) (ino : Nat) : Nat := num f (inodeAt f ino) 2

def IsDir (f : Image) (ino : Nat) : Prop := mode f ino / 4096 = 4

def IsRegular (f : Image) (ino : Nat) : Prop := mode f ino / 4096 = 8

def size (f : Image) (ino : Nat) : Nat := num f (inodeAt f ino + 8) 8

/-! ## Blocks -/

def pointer (f : Image) (a i : Nat) : Nat := num f (a * (geometry f).fsize + i * 4) 4

/-- Leaf `i` of the pointer tree of the given height at fragment `a`; 0 is a hole. -/
def leaf (f : Image) : Nat → Nat → Nat → Nat
  | 0, a, _ => a
  | l + 1, a, i =>
    let n := (geometry f).nindir ^ l
    if a = 0 then 0 else leaf f l (pointer f a (i / n)) (i % n)

/-- The tree of an inode that covers logical block `bn`: its height, its root and
the number of the leaf. -/
def treeOf (f : Image) (ino bn : Nat) : Nat × Nat × Nat :=
  let n := (geometry f).nindir
  let root := fun i => num f (inodeAt f ino + 0x58 + i * 4) 4
  if bn < 12 then (0, num f (inodeAt f ino + 0x28 + bn * 4) 4, 0)
  else if bn < 12 + n then (1, root 0, bn - 12)
  else if bn < 12 + n + n ^ 2 then (2, root 1, bn - 12 - n)
  else (3, root 2, bn - 12 - n - n ^ 2)

def blockOf (f : Image) (ino bn : Nat) : Nat :=
  let (l, a, i) := treeOf f ino bn
  leaf f l a i

def fileByte (f : Image) (ino i : Nat) : U8 :=
  let a := blockOf f ino (i / (geometry f).bsize)
  if a = 0 then 0 else f.byte (a * (geometry f).fsize + i % (geometry f).bsize)

def contents (f : Image) (ino : Nat) : List U8 := (List.range (size f ino)).map (fileByte f ino)

/-- The pointer blocks on the way to leaf `i` lie inside the image. -/
def PathInside (f : Image) : Nat → Nat → Nat → Prop
  | 0, _, _ => True
  | l + 1, a, i =>
    let n := (geometry f).nindir ^ l
    a = 0 ∨ (a * (geometry f).fsize + (geometry f).bsize ≤ f.size ∧
      PathInside f l (pointer f a (i / n)) (i % n))

/-- The size is below 4 GiB less one block, and every byte of the file is a hole
or lies inside the image. -/
structure FileOk (f : Image) (ino : Nat) : Prop where
  bounded : size f ino + (geometry f).bsize < 2 ^ 32
  path : ∀ i < size f ino, let (l, a, n) := treeOf f ino (i / (geometry f).bsize)
    PathInside f l a n
  data : ∀ i < size f ino, blockOf f ino (i / (geometry f).bsize) ≠ 0 →
    blockOf f ino (i / (geometry f).bsize) * (geometry f).fsize + i % (geometry f).bsize < f.size

/-! ## Directories -/

/-- A chain of directory records, each with its inode number (0 when unused) and
its name, padded to the record's length. -/
inductive Records : List U8 → List (Nat × List U8) → Prop where
  | nil : Records [] []
  | cons {ino : Nat} {name pad rest : List U8} {es : List (Nat × List U8)} (hino : ino < 2 ^ 32)
      (hlen : 8 + name.length + pad.length < 2 ^ 16) (hrest : Records rest es) :
      Records (enc 4 ino ++ enc 2 (8 + name.length + pad.length) ++ enc 2 name.length ++ name ++
        pad ++ rest) ((ino, name) :: es)

def lookup (es : List (Nat × List U8)) (name : List U8) : Option Nat :=
  (es.find? (fun e => e.1 ≠ 0 ∧ e.2 = name)).map Prod.fst

/-! ## Paths -/

def SLASH : U8 := 0x2F

def components (path : List U8) : List (List U8) := (path.splitOn SLASH).filter (· ≠ [])

/-- Looking up each component in turn from inode `ino` ends at `target`. -/
inductive Names (f : Image) : Nat → List (List U8) → Nat → Prop where
  | here (ino : Nat) : Names f ino [] ino
  | step {d ino target : Nat} {es : List (Nat × List U8)} {name : List U8}
      {names : List (List U8)} (hdir : IsDir f d) (hrecords : Records (contents f d) es)
      (hlookup : lookup es name = some ino) (hrest : Names f ino names target) :
      Names f d (name :: names) target

def ROOT : Nat := 2

/-- The inodes of the tree below the root. -/
inductive Reachable (f : Image) : Nat → Prop where
  | root : Reachable f ROOT
  | child {d ino : Nat} {es : List (Nat × List U8)} {name : List U8} (hd : Reachable f d)
      (hdir : IsDir f d) (hrecords : Records (contents f d) es) (hmem : (ino, name) ∈ es)
      (hused : ino ≠ 0) : Reachable f ino

structure WellFormed (f : Image) : Prop where
  super : SuperOk f
  inside : ∀ ino, Reachable f ino → inodeAt f ino + 128 ≤ f.size
  file : ∀ ino, Reachable f ino → IsDir f ino ∨ IsRegular f ino → FileOk f ino
  dir : ∀ d, Reachable f d → IsDir f d → ∃ es, Records (contents f d) es

end Nx88.Ffs.Format
