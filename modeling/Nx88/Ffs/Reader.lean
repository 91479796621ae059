import Nx88.Image
/-!
# The 4.3BSD FFS reader

`ffs.c`: superblock, name lookup, inode, data blocks.  Numbers are naturals with
the wrap-around of `u32` written out.  `fresh` is what `malloc` hands out.  The
outer option of the lookup is `none` while a directory scan has not ended.
-/

namespace Nx88.Ffs

def FFS_SBOFF : Nat := 8192
def FFS_MAGIC : Nat := 0x011954
def FFS_ROOTINO : Nat := 2
def FFS_DINODE_SIZE : Nat := 128

/-- `u32` arithmetic. -/
def u32 (n : Nat) : Nat := n % 2 ^ 32

structure FfsSb where
  ok : Bool
  fsize : Nat
  bsize : Nat
  frag : Nat
  iblkno : Nat
  cgoffset : Nat
  cgmask : Nat
  ipg : Nat
  fpg : Nat
  inopb : Nat
  nindir : Nat
deriving DecidableEq

def FfsSb.blank : FfsSb := ⟨false, 0, 0, 0, 0, 0, 0, 0, 0, 0, 0⟩

/-- The parsed superblock and the image it was parsed from. -/
structure FfsState where
  sb : FfsSb
  fp : Option Nat

def FfsState.initial : FfsState := ⟨FfsSb.blank, none⟩

/-! ## Raw image access -/

def byteAt (p : List U8) (i : Nat) : Nat := (p.getD i 0).toNat

def be32 (p : List U8) : Nat :=
  byteAt p 0 * 2 ^ 24 + byteAt p 1 * 2 ^ 16 + byteAt p 2 * 2 ^ 8 + byteAt p 3

def be16 (p : List U8) : Nat := byteAt p 0 * 2 ^ 8 + byteAt p 1

def dread32 (img : Image) (byteoff : Nat) : Nat :=
  let b := img.read byteoff 4
  if b.length ≠ 4 then 0 else be32 b

def dread (img : Image) (byteoff n : Nat) : List U8 :=
  let g := img.read byteoff n
  g ++ List.replicate (n - g.length) 0

/-! ## Superblock -/

/-- Parse the superblock unless a parsed one is cached; `none` stands for the
`-1` of a missing magic number or a zero geometry. -/
def ffsInit (img : Image) (sb : FfsSb) : FfsSb × Bool :=
  if sb.ok then (sb, true)
  else if dread32 img (FFS_SBOFF + 0x55C) ≠ FFS_MAGIC then (sb, false)
  else
    let sb : FfsSb :=
      { ok := false
        iblkno := dread32 img (FFS_SBOFF + 0x10)
        cgoffset := dread32 img (FFS_SBOFF + 0x18)
        cgmask := dread32 img (FFS_SBOFF + 0x1C)
        bsize := dread32 img (FFS_SBOFF + 0x30)
        fsize := dread32 img (FFS_SBOFF + 0x34)
        frag := dread32 img (FFS_SBOFF + 0x38)
        nindir := dread32 img (FFS_SBOFF + 0x74)
        inopb := dread32 img (FFS_SBOFF + 0x78)
        ipg := dread32 img (FFS_SBOFF + 0xB8)
        fpg := dread32 img (FFS_SBOFF + 0xBC) }
    if sb.fsize = 0 ∨ sb.bsize = 0 ∨ sb.ipg = 0 ∨ sb.inopb = 0 ∨ sb.nindir = 0 then (sb, false)
    else ({ sb with ok := true }, true)

/-! ## Inodes and blocks -/

def blockbyte (sb : FfsSb) (fragaddr : Nat) : Nat := u32 (fragaddr * sb.fsize)

/-- Byte offset of inode `ino`'s 128-byte dinode within its cylinder group. -/
def dinodeByte (sb : FfsSb) (ino : Nat) : Nat :=
  let cg := ino / sb.ipg
  let cgstart := u32 (u32 (sb.fpg * cg) + u32 (sb.cgoffset * (cg &&& (2 ^ 32 - 1 - sb.cgmask))))
  let fragaddr := u32 (u32 (cgstart + sb.iblkno) + u32 (ino % sb.ipg / sb.inopb * sb.frag))
  u32 (blockbyte sb fragaddr + u32 (ino % sb.inopb * FFS_DINODE_SIZE))

def ind (img : Image) (sb : FfsSb) (blkfrag idx : Nat) : Nat :=
  if blkfrag = 0 then 0 else dread32 img (u32 (blockbyte sb blkfrag + u32 (idx * 4)))

/-- Fragment address of the file's logical block `bn`: direct, single, double. -/
def bmap (img : Image) (sb : FfsSb) (db ib : Nat → Nat) (bn : Nat) : Nat :=
  let nind := sb.nindir
  if bn < 12 then db bn
  else if bn - 12 < nind then ind img sb (ib 0) (bn - 12)
  else if bn - 12 - nind < u32 (nind * nind) then
    ind img sb (ind img sb (ib 1) ((bn - 12 - nind) / nind)) ((bn - 12 - nind) % nind)
  else 0

def blit (buf : List U8) (off : Nat) (src : List U8) : List U8 :=
  buf.take off ++ src ++ buf.drop (off + src.length)

def copyBlock (img : Image) (sb : FfsSb) (db ib : Nat → Nat) (size : Nat) (buf : List U8)
    (k : Nat) : List U8 :=
  let fa := bmap img sb db ib k
  let n := if u32 ((k + 1) * sb.bsize) ≤ size then sb.bsize else u32 (size + 2 ^ 32 - u32 (k * sb.bsize))
  blit buf (u32 (k * sb.bsize))
    (if fa ≠ 0 then dread img (blockbyte sb fa) n else List.replicate n 0)

structure Inode where
  buf : List U8
  len : Nat
  mode : Nat

def readIno (img : Image) (fresh : Nat → U8) (sb : FfsSb) (ino : Nat) : Inode :=
  let din := dread img (dinodeByte sb ino) FFS_DINODE_SIZE
  let size := be32 (din.drop 0x0C)
  let db := fun i => be32 (din.drop (0x28 + 4 * i))
  let ib := fun i => be32 (din.drop (0x58 + 4 * i))
  let buf := (List.range size).map fresh
  let nblk := u32 (size + sb.bsize - 1) / sb.bsize
  { buf := (List.range nblk).foldl (copyBlock img sb db ib size) buf
    len := size
    mode := be16 din }

/-! ## Name lookup -/

def scanDir (dir : List U8) (dlen : Nat) (comp : List U8) : Nat → Nat → Option Nat
  | 0, _ => none
  | fuel + 1, off =>
    if u32 (off + 8) ≤ dlen then
      let dino := be32 (dir.drop off)
      let reclen := be16 (dir.drop (off + 4))
      let namlen := be16 (dir.drop (off + 6))
      if reclen = 0 then some 0
      else if dino ≠ 0 ∧ namlen = comp.length ∧ (dir.drop (off + 8)).take comp.length = comp then
        some dino
      else scanDir dir dlen comp fuel (u32 (off + reclen))
    else some 0

def SLASH : U8 := 0x2F

/-- One component: the inode number it names in directory `ino`; the inner `none`
is the `-1` of a missing name or of an inode that is no directory. -/
def nameiStep (img : Image) (fresh : Nat → U8) (sb : FfsSb) (ino : Nat) (comp : List U8) :
    Option (Option Nat) :=
  let dir := readIno img fresh sb ino
  if dir.mode &&& 0xF000 ≠ 0x4000 then some none
  else
    (scanDir dir.buf dir.len comp (dir.len + 1) 0).map
      (fun found => if found = 0 then none else some found)

/-- Resolve a path to an inode number; the inner `none` is the `-1`. -/
def namei (img : Image) (fresh : Nat → U8) (sb : FfsSb) :
    Nat → List U8 → Nat → Option (Option Nat)
  | 0, _, _ => none
  | fuel + 1, path, ino =>
    let p := path.dropWhile (· = SLASH)
    if p = [] then some (some ino)
    else
      let comp := (p.takeWhile (· ≠ SLASH)).take 255
      match nameiStep img fresh sb ino comp with
      | none => none
      | some none => some none
      | some (some found) => namei img fresh sb fuel (p.drop comp.length) found

/-- The bytes and the length of a regular file, or `none` for the `-1`. -/
def ffsReadFile (files : Nat → Image) (fresh : Nat → U8) (st : FfsState) (fp : Option Nat)
    (path : List U8) : FfsState × Option (Option (List U8 × Nat)) :=
  match fp with
  | none => (st, some none)
  | some f =>
    -- new image, new geometry
    let st := if st.fp = some f then st else { fp := some f, sb := { st.sb with ok := false } }
    match ffsInit (files f) st.sb with
    | (sb, false) => ({ st with sb := sb }, some none)
    | (sb, true) =>
      ({ st with sb := sb },
        match namei (files f) fresh sb (path.length + 1) path FFS_ROOTINO with
        | none => none
        | some none => some none
        | some (some ino) =>
          let file := readIno (files f) fresh sb ino
          if file.mode &&& 0xF000 ≠ 0x8000 then some none
          else some (some (file.buf, file.len)))

end Nx88.Ffs
