import Nx88.Ffs.Slots
import Nx88.Ffs.Format
/-!
# Inodes and blocks

The reader's wrapped arithmetic, block map and copy loop against the on-disk
format: on a well-formed file the reader fetches exactly its contents.
-/

namespace Nx88.Ffs

open Format Lib.Layout

/-! ## Numbers -/

theorem num_lt (f : Image) (off n : Nat) : num f off n < 256 ^ n := by
  induction n with
  | zero => simp [num]
  | succ n ih =>
    have hb := (f.byte (off + n)).isLt
    simp only [num, Nat.pow_succ]
    omega

theorem num_add (f : Image) (off m n : Nat) :
    num f off (m + n) = num f off m * 256 ^ n + num f (off + m) n := by
  induction n with
  | zero => simp [num]
  | succ n ih =>
    rw [← Nat.add_assoc, num, ih, num, Nat.pow_succ, Nat.add_assoc off m n]
    ring

theorem byteAt_dread {f : Image} {off n i : Nat} (hi : i < n) (hin : off + i < f.size) :
    byteAt (dread f off n) i = (f.byte (off + i)).toNat := by
  have hlt : i < min n (f.size - off) := by omega
  unfold byteAt dread
  rw [List.getD_eq_getElem?_getD, List.getElem?_append_left (by simpa using hlt),
    Image.getElem?_read f off n i hlt]
  rfl

theorem byteAt_drop (l : List U8) (o i : Nat) : byteAt (l.drop o) i = byteAt l (o + i) := by
  unfold byteAt
  rw [List.getD_eq_getElem?_getD, List.getD_eq_getElem?_getD, List.getElem?_drop]

theorem be32_dread {f : Image} {off n o : Nat} (hn : o + 4 ≤ n) (hin : off + o + 4 ≤ f.size) :
    be32 ((dread f off n).drop o) = num f (off + o) 4 := by
  have hb : ∀ i < 4, byteAt ((dread f off n).drop o) i = (f.byte (off + o + i)).toNat := by
    intro i hi
    rw [byteAt_drop, byteAt_dread (by omega) (by omega), Nat.add_assoc]
  unfold be32
  rw [hb 0 (by omega), hb 1 (by omega), hb 2 (by omega), hb 3 (by omega)]
  simp only [num]
  ring

theorem be16_dread {f : Image} {off n : Nat} (hn : 2 ≤ n) (hin : off + 2 ≤ f.size) :
    be16 (dread f off n) = num f off 2 := by
  unfold be16
  rw [byteAt_dread (by omega) (by omega), byteAt_dread (by omega) (by omega)]
  simp only [num]
  ring

theorem dread_of_le {f : Image} {off n : Nat} (hin : off + n ≤ f.size) :
    dread f off n = f.read off n := by
  have hlen : n - (f.read off n).length = 0 := by
    rw [Image.length_read]
    omega
  simp only [dread, hlen, List.replicate_zero, List.append_nil]

theorem dread32_eq {f : Image} {off : Nat} (hin : off + 4 ≤ f.size) :
    dread32 f off = num f off 4 := by
  have hbe : be32 ((dread f off 4).drop 0) = num f (off + 0) 4 :=
    be32_dread (by omega) (by omega)
  rw [List.drop_zero, dread_of_le hin] at hbe
  unfold dread32
  rw [if_neg (by rw [Image.length_read]; omega), hbe, Nat.add_zero]

@[simp] theorem length_dread (f : Image) (off n : Nat) : (dread f off n).length = n := by
  simp only [dread, List.length_append, List.length_replicate, Image.length_read]
  omega

/-! ## Superblock -/

def sbOf (f : Image) : FfsSb where
  ok := true
  fsize := (geometry f).fsize
  bsize := (geometry f).bsize
  frag := (geometry f).frag
  iblkno := (geometry f).iblkno
  cgoffset := (geometry f).cgoffset
  cgmask := (geometry f).cgmask
  ipg := (geometry f).ipg
  fpg := (geometry f).fpg
  inopb := (geometry f).inopb
  nindir := (geometry f).nindir

theorem ffsInit_fresh {f : Image} {sb : FfsSb} (h : SuperOk f) (hok : sb.ok = false) :
    ffsInit f sb = (sbOf f, true) := by
  have hpresent := h.present
  have hfield : ∀ o, o + 4 ≤ 0x560 → dread32 f (FFS_SBOFF + o) = num f (SUPER + o) 4 := by
    intro o ho
    apply dread32_eq
    simp only [FFS_SBOFF, SUPER] at hpresent ⊢
    omega
  have hb := h.block
  have hf := h.frags
  have hp := h.pointers
  have hi := h.inodes
  have hg := h.group.1
  have hfsize : (geometry f).fsize ≠ 0 := by
    intro h0
    rw [h0] at hf
    omega
  unfold ffsInit
  rw [if_neg (by simp [hok]), hfield _ (by omega),
    if_neg (by rw [h.magic]; simp [FFS_MAGIC])]
  simp only [hfield _ (show 0x10 + 4 ≤ 0x560 by omega), hfield _ (show 0x18 + 4 ≤ 0x560 by omega),
    hfield _ (show 0x1C + 4 ≤ 0x560 by omega), hfield _ (show 0x30 + 4 ≤ 0x560 by omega),
    hfield _ (show 0x34 + 4 ≤ 0x560 by omega), hfield _ (show 0x38 + 4 ≤ 0x560 by omega),
    hfield _ (show 0x74 + 4 ≤ 0x560 by omega), hfield _ (show 0x78 + 4 ≤ 0x560 by omega),
    hfield _ (show 0xB8 + 4 ≤ 0x560 by omega), hfield _ (show 0xBC + 4 ≤ 0x560 by omega)]
  rw [if_neg]
  · rfl
  · show ¬((geometry f).fsize = 0 ∨ (geometry f).bsize = 0 ∨ (geometry f).ipg = 0 ∨
      (geometry f).inopb = 0 ∨ (geometry f).nindir = 0)
    omega

/-! ## Inodes -/

theorem and_sub_eq_ldiff {a m : Nat} (ha : a < 2 ^ 32) (hm : m < 2 ^ 32) :
    a &&& (2 ^ 32 - 1 - m) = Nat.ldiff a m := by
  apply Nat.eq_of_testBit_eq
  intro i
  rw [Nat.testBit_and, Nat.testBit_ldiff, Nat.sub_sub, Nat.add_comm 1 m,
    Nat.testBit_two_pow_sub_succ hm]
  by_cases hi : i < 32
  · simp [hi]
  · have hbit : a.testBit i = false :=
      Nat.testBit_lt_two_pow (lt_of_lt_of_le ha (Nat.pow_le_pow_right (by omega) (by omega)))
    simp [hbit]

theorem sbOf_wholeBlocks {f : Image} (h : SuperOk f) : WholeBlocks (sbOf f) :=
  ⟨h.group.2, h.inodes.symm.trans h.frags⟩

theorem inodeAt_eq_record (f : Image) {ino : Nat} (hino : ino < 2 ^ 32) :
    inodeAt f ino =
      record (fun cg => areaFrag (sbOf f) cg * (sbOf f).fsize) (sbOf f).ipg 128 ino := by
  have hmask : (geometry f).cgmask < 2 ^ 32 := num_lt f _ 4
  have hcg : ino / (geometry f).ipg < 2 ^ 32 := lt_of_le_of_lt (Nat.div_le_self _ _) hino
  simp only [record, areaFrag, sbOf]
  rw [and_sub_eq_ldiff hcg hmask]
  rfl

/-- Inside the image no step of the reader's address arithmetic wraps. -/
theorem dinodeByte_eq {f : Image} (h : SuperOk f) {ino : Nat} (hino : ino < 2 ^ 32)
    (hin : inodeAt f ino + 128 ≤ f.size) : dinodeByte (sbOf f) ino = inodeAt f ino := by
  have hsmall := h.small
  have hfsize : 0 < (sbOf f).fsize := by
    have hblock := h.block
    rw [h.frags] at hblock
    exact Nat.pos_of_mul_pos_left (Nat.lt_of_lt_of_le (by decide) hblock)
  rw [inodeAt_eq_record f hino] at hin ⊢
  exact dinodeByte_exact (sbOf_wholeBlocks h) hfsize (by omega)

theorem mode_readIno {f : Image} (h : SuperOk f) (fresh : Nat → U8) {ino : Nat}
    (hino : ino < 2 ^ 32) (hin : inodeAt f ino + 128 ≤ f.size) :
    (readIno f fresh (sbOf f) ino).mode = mode f ino := by
  simp only [readIno, dinodeByte_eq h hino hin, FFS_DINODE_SIZE]
  exact be16_dread (by omega) (by omega)

theorem size_eq {f : Image} {ino : Nat} (hfile : FileOk f ino) :
    num f (inodeAt f ino + 0x0C) 4 = size f ino := by
  have hsize := num_add f (inodeAt f ino + 8) 4 4
  have hlow := num_lt f (inodeAt f ino + 8 + 4) 4
  have hbound := hfile.bounded
  have hdef : size f ino = num f (inodeAt f ino + 8) (4 + 4) := rfl
  rw [show inodeAt f ino + 0x0C = inodeAt f ino + 8 + 4 by omega]
  omega

/-! ## Block map -/

theorem ind_eq {f : Image} (h : SuperOk f) {a i : Nat}
    (ha : a = 0 ∨ a * (geometry f).fsize + (geometry f).bsize ≤ f.size)
    (hi : i < (geometry f).nindir) :
    ind f (sbOf f) a i = if a = 0 then 0 else pointer f a i := by
  have hsmall := h.small
  have hp := h.pointers
  unfold ind
  split
  · rfl
  · rename_i hne
    have hin := ha.resolve_left hne
    unfold blockbyte pointer
    simp only [sbOf]
    rw [u32_of_lt (n := a * (geometry f).fsize) (by omega), u32_of_lt (n := i * 4) (by omega),
      u32_of_lt (by omega), dread32_eq (by omega)]

theorem nindir_ge {f : Image} (h : SuperOk f) : 1024 ≤ (geometry f).nindir := by
  have hb := h.block
  have hp := h.pointers
  omega

theorem block_lt_double {f : Image} (h : SuperOk f) {k : Nat}
    (hk : k * (geometry f).bsize < 2 ^ 32) :
    k < 12 + (geometry f).nindir + (geometry f).nindir ^ 2 := by
  have hn := nindir_ge h
  have hp := h.pointers
  generalize (geometry f).nindir = n at hn hp ⊢
  by_contra hge
  have hk1 : n ^ 2 ≤ k := by omega
  have hsq : 1024 * 1024 ≤ n ^ 2 := by
    rw [pow_two]
    exact Nat.mul_le_mul hn hn
  have hprod : n ^ 2 * 4096 ≤ k * (geometry f).bsize := Nat.mul_le_mul hk1 h.block
  omega

/-- Where the square of the pointer count wraps, single indirection is enough. -/
theorem square_lt_or {f : Image} (h : SuperOk f) {k : Nat}
    (hk : k * (geometry f).bsize < 2 ^ 32) :
    (geometry f).nindir * (geometry f).nindir < 2 ^ 32 ∨ k < (geometry f).nindir := by
  have hp := h.pointers
  rw [hp] at hk
  generalize (geometry f).nindir = n at hk ⊢
  by_contra hcon
  obtain ⟨hsq, hkn⟩ := not_or.1 hcon
  have hkn' : n ≤ k := by omega
  have hmul : n * n ≤ k * (n * 4) :=
    calc n * n ≤ k * n := Nat.mul_le_mul_right n hkn'
      _ ≤ k * (n * 4) := Nat.mul_le_mul_left k (by omega)
  omega

theorem treeOf_direct {f : Image} {ino k : Nat} (h : k < 12) :
    treeOf f ino k = (0, num f (inodeAt f ino + 0x28 + k * 4) 4, 0) := by
  simp only [treeOf, if_pos h]

theorem treeOf_single {f : Image} {ino k : Nat} (h1 : ¬k < 12)
    (h2 : k < 12 + (geometry f).nindir) :
    treeOf f ino k = (1, num f (inodeAt f ino + 0x58 + 0 * 4) 4, k - 12) := by
  simp only [treeOf, if_neg h1, if_pos h2]

theorem treeOf_double {f : Image} {ino k : Nat} (h1 : ¬k < 12)
    (h2 : ¬k < 12 + (geometry f).nindir)
    (h3 : k < 12 + (geometry f).nindir + (geometry f).nindir ^ 2) :
    treeOf f ino k =
      (2, num f (inodeAt f ino + 0x58 + 1 * 4) 4, k - 12 - (geometry f).nindir) := by
  simp only [treeOf, if_neg h1, if_neg h2, if_pos h3]

/-- The pointer blocks that logical block `k` needs are in the image. -/
def BlockPath (f : Image) (ino k : Nat) : Prop :=
  let (l, a, n) := treeOf f ino k
  PathInside f l a n

theorem bmap_eq {f : Image} (h : SuperOk f) {ino k : Nat} {db ib : Nat → Nat}
    (hdb : ∀ i < 12, db i = num f (inodeAt f ino + 0x28 + i * 4) 4)
    (hib : ∀ i < 3, ib i = num f (inodeAt f ino + 0x58 + i * 4) 4)
    (hk : k * (geometry f).bsize < 2 ^ 32) (hpath : BlockPath f ino k) :
    bmap f (sbOf f) db ib k = blockOf f ino k := by
  have hn := nindir_ge h
  have hlt := block_lt_double h hk
  unfold BlockPath at hpath
  unfold bmap blockOf
  simp only [show (sbOf f).nindir = (geometry f).nindir from rfl]
  rw [hib 0 (by omega), hib 1 (by omega)]
  by_cases h1 : k < 12
  · simp only [treeOf_direct h1, if_pos h1, leaf]
    exact hdb k h1
  · by_cases h2 : k < 12 + (geometry f).nindir
    · simp only [treeOf_single h1 h2, PathInside, leaf, pow_zero, Nat.div_one] at hpath ⊢
      rw [if_neg h1, if_pos (show k - 12 < (geometry f).nindir by omega)]
      exact ind_eq h (hpath.imp_right And.left) (by omega)
    · have hsq := (square_lt_or h hk).resolve_right (by omega)
      have h3 : k - 12 - (geometry f).nindir < (geometry f).nindir * (geometry f).nindir := by
        rw [pow_two] at hlt
        omega
      simp only [treeOf_double h1 h2 hlt, PathInside, leaf, pow_one, pow_zero, Nat.div_one]
        at hpath ⊢
      rw [if_neg h1, if_neg (show ¬k - 12 < (geometry f).nindir by omega), u32_of_lt hsq,
        if_pos h3, ind_eq h (hpath.imp_right And.left) (Nat.div_lt_of_lt_mul h3)]
      rcases hpath with h0 | ⟨-, hinner⟩
      · simp only [if_pos h0, ind, if_true]
      · by_cases h0 : num f (inodeAt f ino + 0x58 + 1 * 4) 4 = 0
        · simp only [if_pos h0, ind, if_true]
        · rw [if_neg h0, if_neg h0]
          exact ind_eq h (hinner.imp_right And.left) (Nat.mod_lt _ (by omega))

/-! ## The copy loop -/

theorem length_blit {buf src : List U8} {off : Nat} (h : off + src.length ≤ buf.length) :
    (blit buf off src).length = buf.length := by
  simp only [blit, List.length_append, List.length_take, List.length_drop]
  omega

theorem getElem?_blit {buf src : List U8} {off i : Nat} (h : off + src.length ≤ buf.length) :
    (blit buf off src)[i]? =
      if i < off then buf[i]? else if i < off + src.length then src[i - off]? else buf[i]? := by
  unfold blit
  have htake : (buf.take off).length = off := by
    rw [List.length_take]
    omega
  rw [List.append_assoc]
  by_cases h1 : i < off
  · rw [if_pos h1, List.getElem?_append_left (by omega), List.getElem?_take_of_lt h1]
  · rw [if_neg h1, List.getElem?_append_right (by omega), htake]
    by_cases h2 : i < off + src.length
    · rw [if_pos h2, List.getElem?_append_left (by omega)]
    · rw [if_neg h2, List.getElem?_append_right (by omega), List.getElem?_drop]
      congr 1
      omega

theorem getElem?_dread {f : Image} {off n i : Nat} (hi : i < n) (hin : off + i < f.size) :
    (dread f off n)[i]? = some (f.byte (off + i)) := by
  have hlt : i < min n (f.size - off) := by omega
  simp only [dread]
  rw [List.getElem?_append_left (by simpa using hlt), Image.getElem?_read f off n i hlt]

/-- How many bytes of block `k` belong to the file. -/
def blockLen (f : Image) (ino k : Nat) : Nat :=
  min (geometry f).bsize (size f ino - k * (geometry f).bsize)

/-- Where the copy loop stands before block `k`: everything below is copied. -/
structure Copied (f : Image) (ino : Nat) (buf : List U8) (k : Nat) : Prop where
  length : buf.length = size f ino
  done : ∀ i < size f ino, i < k * (geometry f).bsize → buf[i]? = some (fileByte f ino i)

theorem Copied.step {f : Image} (h : SuperOk f) {ino k : Nat} {buf : List U8}
    {db ib : Nat → Nat} (hfile : FileOk f ino)
    (hdb : ∀ i < 12, db i = num f (inodeAt f ino + 0x28 + i * 4) 4)
    (hib : ∀ i < 3, ib i = num f (inodeAt f ino + 0x58 + i * 4) 4)
    (hk : k * (geometry f).bsize < size f ino) (hc : Copied f ino buf k) :
    Copied f ino (copyBlock f (sbOf f) db ib (size f ino) buf k) (k + 1) := by
  have hb := h.block
  have hsmall := h.small
  have hbound := hfile.bounded
  have hpos : 0 < (geometry f).bsize := by omega
  have hdiv : ∀ i, i < (geometry f).bsize → (k * (geometry f).bsize + i) / (geometry f).bsize = k ∧
      (k * (geometry f).bsize + i) % (geometry f).bsize = i := by
    intro i hi
    rw [Nat.mul_comm, Nat.mul_add_div hpos, Nat.mul_add_mod, Nat.div_eq_of_lt hi,
      Nat.mod_eq_of_lt hi]
    exact ⟨rfl, rfl⟩
  have hpath : BlockPath f ino k := by
    have hp := hfile.path _ hk
    rwa [show k * (geometry f).bsize / (geometry f).bsize = k from (hdiv 0 hpos).1] at hp
  have hmap := bmap_eq h hdb hib (by omega) hpath
  have hsucc : (k + 1) * (geometry f).bsize = k * (geometry f).bsize + (geometry f).bsize := by ring
  -- the number of bytes copied, with the wrap-around gone
  have hlen : (if u32 ((k + 1) * (sbOf f).bsize) ≤ size f ino then (sbOf f).bsize
      else u32 (size f ino + 2 ^ 32 - u32 (k * (sbOf f).bsize))) = blockLen f ino k := by
    simp only [show (sbOf f).bsize = (geometry f).bsize from rfl, blockLen]
    rw [u32_of_lt (n := k * (geometry f).bsize) (by omega),
      u32_of_lt (n := (k + 1) * (geometry f).bsize) (by omega)]
    unfold u32
    split <;> omega
  -- the bytes copied are those of the file
  have hsrc : ∀ i < blockLen f ino k,
      (if blockOf f ino k ≠ 0 then dread f (blockbyte (sbOf f) (blockOf f ino k)) (blockLen f ino k)
        else List.replicate (blockLen f ino k) 0)[i]? =
        some (fileByte f ino (k * (geometry f).bsize + i)) := by
    intro i hi
    have hib' : i < (geometry f).bsize := by
      unfold blockLen at hi
      omega
    have his : k * (geometry f).bsize + i < size f ino := by
      unfold blockLen at hi
      omega
    obtain ⟨hq, hr⟩ := hdiv i hib'
    unfold fileByte
    simp only [hq, hr]
    by_cases h0 : blockOf f ino k = 0
    · simp [h0, hi]
    · have hdata := hfile.data _ his
      rw [hq, hr] at hdata
      have hin := hdata h0
      rw [if_pos h0, if_neg h0]
      unfold blockbyte
      simp only [show (sbOf f).fsize = (geometry f).fsize from rfl]
      rw [u32_of_lt (by omega)]
      exact getElem?_dread hi hin
  have hoff : u32 (k * (sbOf f).bsize) = k * (geometry f).bsize := u32_of_lt (by
    simp only [show (sbOf f).bsize = (geometry f).bsize from rfl]
    omega)
  simp only [copyBlock, hmap, hlen]
  rw [hoff]
  generalize hs : (if blockOf f ino k ≠ 0 then
    dread f (blockbyte (sbOf f) (blockOf f ino k)) (blockLen f ino k)
    else List.replicate (blockLen f ino k) 0) = src at hsrc ⊢
  have hsl : src.length = blockLen f ino k := by
    rw [← hs]
    split <;> simp
  have hfit : k * (geometry f).bsize + src.length ≤ buf.length := by
    rw [hsl, hc.length]
    unfold blockLen
    omega
  refine ⟨by rw [length_blit hfit, hc.length], fun i hi hik => ?_⟩
  rw [getElem?_blit hfit, hsl]
  by_cases h1 : i < k * (geometry f).bsize
  · rw [if_pos h1]
    exact hc.done i hi h1
  · have h2 : i < k * (geometry f).bsize + blockLen f ino k := by
      unfold blockLen
      omega
    rw [if_neg h1, if_pos h2, hsrc _ (by omega),
      Nat.add_sub_cancel' (by omega : k * (geometry f).bsize ≤ i)]

theorem Copied.loop {f : Image} (h : SuperOk f) {ino : Nat} {buf : List U8} {db ib : Nat → Nat}
    (hfile : FileOk f ino)
    (hdb : ∀ i < 12, db i = num f (inodeAt f ino + 0x28 + i * 4) 4)
    (hib : ∀ i < 3, ib i = num f (inodeAt f ino + 0x58 + i * 4) 4)
    (hbuf : buf.length = size f ino) (n : Nat)
    (hn : ∀ k < n, k * (geometry f).bsize < size f ino) :
    Copied f ino ((List.range n).foldl (copyBlock f (sbOf f) db ib (size f ino)) buf) n := by
  induction n with
  | zero => exact ⟨hbuf, fun i _ hi => by simp at hi⟩
  | succ n ih =>
    rw [List.range_succ, List.foldl_append]
    exact (ih (fun k hk => hn k (by omega))).step h hfile hdb hib (hn n (by omega))

theorem readIno_eq {f : Image} (h : SuperOk f) (fresh : Nat → U8) {ino : Nat}
    (hino : ino < 2 ^ 32) (hin : inodeAt f ino + 128 ≤ f.size) (hfile : FileOk f ino) :
    readIno f fresh (sbOf f) ino = ⟨contents f ino, size f ino, mode f ino⟩ := by
  have hmode := mode_readIno h fresh hino hin
  have hb := h.block
  have hbound := hfile.bounded
  have hpos : 0 < (geometry f).bsize := by omega
  have hsize : be32 ((dread f (inodeAt f ino) 128).drop 0x0C) = size f ino :=
    (be32_dread (by omega) (by omega)).trans (size_eq hfile)
  have hdb : ∀ i < 12, be32 ((dread f (inodeAt f ino) 128).drop (0x28 + 4 * i)) =
      num f (inodeAt f ino + 0x28 + i * 4) 4 := by
    intro i hi
    rw [be32_dread (by omega) (by omega)]
    exact congrArg (num f · 4) (by omega)
  have hib : ∀ i < 3, be32 ((dread f (inodeAt f ino) 128).drop (0x58 + 4 * i)) =
      num f (inodeAt f ino + 0x58 + i * 4) 4 := by
    intro i hi
    rw [be32_dread (by omega) (by omega)]
    exact congrArg (num f · 4) (by omega)
  have hnblk : u32 (size f ino + (sbOf f).bsize - 1) / (sbOf f).bsize =
      (size f ino + (geometry f).bsize - 1) / (geometry f).bsize := by
    simp only [show (sbOf f).bsize = (geometry f).bsize from rfl]
    rw [u32_of_lt (by omega)]
  have hcopied := Copied.loop h hfile hdb hib
    (show ((List.range (size f ino)).map fresh).length = size f ino by simp)
    ((size f ino + (geometry f).bsize - 1) / (geometry f).bsize) (by
      intro k hk
      have hle : k * (geometry f).bsize + (geometry f).bsize ≤
          size f ino + (geometry f).bsize - 1 := by
        have hmul := (Nat.le_div_iff_mul_le hpos).1 (Nat.succ_le_of_lt hk)
        rwa [Nat.succ_mul] at hmul
      omega)
  have hbuf : (List.range ((size f ino + (geometry f).bsize - 1) / (geometry f).bsize)).foldl
      (copyBlock f (sbOf f) (fun i => be32 ((dread f (inodeAt f ino) 128).drop (0x28 + 4 * i)))
        (fun i => be32 ((dread f (inodeAt f ino) 128).drop (0x58 + 4 * i))) (size f ino))
      ((List.range (size f ino)).map fresh) = contents f ino := by
    apply List.ext_getElem?
    intro i
    by_cases hi : i < size f ino
    · have hcover : i < (size f ino + (geometry f).bsize - 1) / (geometry f).bsize *
          (geometry f).bsize := by
        have hdm := Nat.div_add_mod (size f ino + (geometry f).bsize - 1) (geometry f).bsize
        have hml := Nat.mod_lt (size f ino + (geometry f).bsize - 1) hpos
        rw [Nat.mul_comm] at hdm
        omega
      rw [hcopied.done i hi hcover, contents, List.getElem?_map, List.getElem?_range hi]
      rfl
    · rw [List.getElem?_eq_none (by rw [hcopied.length]; omega),
        List.getElem?_eq_none (by simp [contents]; omega)]
  have hdin := dinodeByte_eq h hino hin
  have hsplit : readIno f fresh (sbOf f) ino =
      ⟨(readIno f fresh (sbOf f) ino).buf, (readIno f fresh (sbOf f) ino).len,
        (readIno f fresh (sbOf f) ino).mode⟩ := rfl
  rw [hsplit, hmode]
  simp only [readIno, hdin, FFS_DINODE_SIZE, hsize, hnblk, hbuf]

end Nx88.Ffs
