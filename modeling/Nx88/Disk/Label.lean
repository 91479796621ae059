import Nx88.Image
import Nx88.Lib.Text
import Nx88.Lib.Words
import Mathlib.Logic.Function.Basic
import Mathlib.Tactic.IntervalCases
/-!
# The synthetic disk label

`sd_ensure_label`: block 0 of the disk image gets a Sun label whose geometry
follows the size of the file, unless a label with that geometry is there.
-/

namespace Nx88

open Lib.Words Lib.Text

/-! ## Blocks in memory -/

abbrev Block := Nat → U8

namespace Block

def get16 (l : Block) (o : Nat) : U16 := ((l o).setWidth 16 <<< 8) ||| (l (o + 1)).setWidth 16

def get32 (l : Block) (o : Nat) : U32 := be32 (l o) (l (o + 1)) (l (o + 2)) (l (o + 3))

def put16 (l : Block) (o : Nat) (v : U16) : Block :=
  Function.update (Function.update l o ((v >>> 8).setWidth 8)) (o + 1) (v.setWidth 8)

def put32 (l : Block) (o : Nat) (v : U32) : Block :=
  Function.update (Function.update (Function.update (Function.update l o (byteOf v 0)) (o + 1)
    (byteOf v 1)) (o + 2) (byteOf v 2)) (o + 3) (byteOf v 3)

/-- The exclusive or of the first `n` halfwords. -/
def xorHalves (l : Block) : Nat → U16
  | 0 => 0
  | n + 1 => l.xorHalves n ^^^ l.get16 (2 * n)

theorem put16_apart {l : Block} {o p : Nat} {v : U16} (h : p < o ∨ o + 2 ≤ p) :
    l.put16 o v p = l p := by
  unfold put16
  rw [Function.update_of_ne (by omega), Function.update_of_ne (by omega)]

theorem put32_apart {l : Block} {o p : Nat} {v : U32} (h : p < o ∨ o + 4 ≤ p) :
    l.put32 o v p = l p := by
  unfold put32
  rw [Function.update_of_ne (by omega), Function.update_of_ne (by omega),
    Function.update_of_ne (by omega), Function.update_of_ne (by omega)]

theorem get16_put16 (l : Block) (o : Nat) (v : U16) : (l.put16 o v).get16 o = v := by
  unfold get16 put16
  rw [Function.update_self, Function.update_of_ne (by omega), Function.update_self]
  ext i hi
  interval_cases i <;> simp

theorem get16_put16_apart {l : Block} {o p : Nat} {v : U16} (h : p + 2 ≤ o ∨ o + 2 ≤ p) :
    (l.put16 o v).get16 p = l.get16 p := by
  unfold get16
  rw [put16_apart (by omega), put16_apart (by omega)]

theorem get16_put32_apart {l : Block} {o p : Nat} {v : U32} (h : p + 2 ≤ o ∨ o + 4 ≤ p) :
    (l.put32 o v).get16 p = l.get16 p := by
  unfold get16
  rw [put32_apart (by omega), put32_apart (by omega)]

theorem get32_put32 (l : Block) (o : Nat) (v : U32) : (l.put32 o v).get32 o = v := by
  unfold get32 put32
  rw [Function.update_self, Function.update_of_ne (by omega), Function.update_of_ne (by omega),
    Function.update_of_ne (by omega), Function.update_self, Function.update_of_ne (by omega),
    Function.update_of_ne (by omega), Function.update_self, Function.update_of_ne (by omega),
    Function.update_self]
  exact be32_byteOf v

theorem get32_put32_apart {l : Block} {o p : Nat} {v : U32} (h : p + 4 ≤ o ∨ o + 4 ≤ p) :
    (l.put32 o v).get32 p = l.get32 p := by
  unfold get32
  rw [put32_apart (by omega), put32_apart (by omega), put32_apart (by omega),
    put32_apart (by omega)]

theorem get32_put16_apart {l : Block} {o p : Nat} {v : U16} (h : p + 4 ≤ o ∨ o + 2 ≤ p) :
    (l.put16 o v).get32 p = l.get32 p := by
  unfold get32
  rw [put16_apart (by omega), put16_apart (by omega), put16_apart (by omega),
    put16_apart (by omega)]

section Congr

variable {l l' : Block} {size : Nat} (h : ∀ i < size, l' i = l i)
include h

theorem get16_congr {o : Nat} (ho : o + 2 ≤ size) : l'.get16 o = l.get16 o := by
  unfold get16
  rw [h o (by omega), h (o + 1) (by omega)]

theorem get32_congr {o : Nat} (ho : o + 4 ≤ size) : l'.get32 o = l.get32 o := by
  unfold get32
  rw [h o (by omega), h (o + 1) (by omega), h (o + 2) (by omega), h (o + 3) (by omega)]

theorem xorHalves_congr {n : Nat} (hn : 2 * n ≤ size) : l'.xorHalves n = l.xorHalves n := by
  induction n with
  | zero => rfl
  | succ n ih => rw [xorHalves, xorHalves, ih (by omega), get16_congr h (by omega)]

end Congr

end Block

/-! ## `sd_ensure_label` -/

def LABEL_NHEAD : U32 := 16
def LABEL_NSECT : U32 := 63

/-- The cylinder count for a file of `sz` bytes. -/
def labelCylinders (sz : Nat) : U32 :=
  let percyl := LABEL_NSECT * LABEL_NHEAD
  let ncyl := BitVec.ofNat 32 (sz / 512) / percyl
  let ncyl := if ncyl = 0 then 1 else ncyl
  if 0xFFFF < ncyl then 0xFFFF else ncyl

def labelFields (ncyl : U32) : Block :=
  let text := ascii "BBN emulated disk cyl " ++ decimal ncyl.toNat ++ ascii " alt 0 hd " ++
    decimal LABEL_NHEAD.toNat ++ ascii " sec " ++ decimal LABEL_NSECT.toNat
  let lbl : Block := fun i => (text.take 127).getD i 0
  let blocks := ncyl * LABEL_NHEAD * LABEL_NSECT
  let lbl := lbl.put16 0x1A4 3600
  let lbl := lbl.put16 0x1A6 (ncyl.setWidth 16)
  let lbl := lbl.put16 0x1B0 (ncyl.setWidth 16)
  let lbl := lbl.put16 0x1B2 0
  let lbl := lbl.put16 0x1B4 (LABEL_NHEAD.setWidth 16)
  let lbl := lbl.put16 0x1B6 (LABEL_NSECT.setWidth 16)
  let lbl := lbl.put32 (0x1BC + 1 * 8 + 0) 0
  let lbl := lbl.put32 (0x1BC + 1 * 8 + 4) blocks
  let lbl := lbl.put32 (0x1BC + 2 * 8 + 0) 0
  let lbl := lbl.put32 (0x1BC + 2 * 8 + 4) blocks
  lbl.put16 0x1FC 0xDABE

def sunLabel (ncyl : U32) : Block :=
  let lbl := labelFields ncyl
  lbl.put16 0x1FE (lbl.xorHalves 255)

/-- The test that leaves a label alone. -/
def DescribesFile (lbl : Block) (ncyl : U32) : Prop :=
  lbl 0x1FC = 0xDA ∧ lbl 0x1FD = 0xBE ∧ lbl.get16 0x1B0 = ncyl.setWidth 16 ∧
    lbl.get16 0x1B4 = LABEL_NHEAD.setWidth 16 ∧ lbl.get16 0x1B6 = LABEL_NSECT.setWidth 16

instance (lbl : Block) (ncyl : U32) : Decidable (DescribesFile lbl ncyl) :=
  inferInstanceAs (Decidable (_ ∧ _))

/-- What `sd_ensure_label` writes to block 0 of the open image, if anything. -/
def labelWritten (f : Image) : Option Block :=
  if f.size = 0 then none
  else
    let ncyl := labelCylinders f.size
    let got := f.read 0 512
    let lbl : Block := fun i => got.getD i 0
    if got.length = 512 ∧ DescribesFile lbl ncyl then none else some (sunLabel ncyl)

def ensureLabel (f : Image) : Image :=
  match labelWritten f with
  | none => f
  | some lbl => f.write 0 ((List.range 512).map lbl)

def sdEnsureLabel (diskImg : Option Image) : Option Image := diskImg.map ensureLabel

/-! ## Valid labels -/

/-- Whole cylinders of a file of `sz` bytes, as far as a label can tell. -/
def cylinders (sz : Nat) : Nat := max 1 (min 65535 (sz / 512 / 1008))

/-- Partitions b and c are the whole disk. -/
structure WholeDisk (l : Block) (sz : Nat) : Prop where
  startB : l.get32 0x1C4 = 0
  blocksB : (l.get32 0x1C8).toNat = cylinders sz * 1008
  startC : l.get32 0x1CC = 0
  blocksC : (l.get32 0x1D0).toNat = cylinders sz * 1008

structure ValidLabel (l : Block) (sz : Nat) : Prop where
  magic : l.get16 0x1FC = 0xDABE
  checksum : l.xorHalves 256 = 0
  nhead : l.get16 0x1B4 = 16
  nsect : l.get16 0x1B6 = 63
  ncyl : (l.get16 0x1B0).toNat = cylinders sz
  partitions : WholeDisk l sz

theorem toNat_labelCylinders {sz : Nat} (h : sz < 2 ^ 41) :
    (labelCylinders sz).toNat = cylinders sz := by
  have hdiv : (BitVec.ofNat 32 (sz / 512) / (LABEL_NSECT * LABEL_NHEAD)).toNat =
      sz / 512 / 1008 := by
    rw [BitVec.toNat_udiv, BitVec.toNat_ofNat]
    change sz / 512 % 2 ^ 32 / 1008 = _
    omega
  unfold labelCylinders cylinders
  by_cases hzero : BitVec.ofNat 32 (sz / 512) / (LABEL_NSECT * LABEL_NHEAD) = 0
  · have hnat := congrArg BitVec.toNat hzero
    rw [hdiv] at hnat
    change sz / 512 / 1008 = 0 at hnat
    simp only [hzero, if_true]
    rw [if_neg (by decide), hnat]
    rfl
  · have hnat : sz / 512 / 1008 ≠ 0 := by
      intro h0
      apply hzero
      apply BitVec.eq_of_toNat_eq
      rw [hdiv, h0]
      rfl
    simp only [hzero, if_false]
    split
    · rename_i hlarge
      rw [BitVec.lt_def, hdiv] at hlarge
      change 65535 < _ at hlarge
      change 65535 = _
      omega
    · rename_i hsmall
      rw [BitVec.lt_def, hdiv] at hsmall
      change ¬ 65535 < _ at hsmall
      rw [hdiv]
      omega

theorem sunLabel_valid {sz : Nat} (h : sz < 2 ^ 41) :
    ValidLabel (sunLabel (labelCylinders sz)) sz := by
  have hcyl := toNat_labelCylinders h
  have hmax : cylinders sz ≤ 65535 := by
    unfold cylinders
    omega
  have hblocks : (labelCylinders sz * LABEL_NHEAD * LABEL_NSECT).toNat = cylinders sz * 1008 := by
    rw [BitVec.toNat_mul, BitVec.toNat_mul, hcyl]
    change cylinders sz * 16 % 2 ^ 32 * 63 % 2 ^ 32 = _
    omega
  have hbefore : ∀ i < 510, sunLabel (labelCylinders sz) i = labelFields (labelCylinders sz) i :=
    fun i hi => Block.put16_apart (.inl hi)
  refine ⟨?_, ?_, ?_, ?_, ?_, ⟨?_, ?_, ?_, ?_⟩⟩
  · rw [Block.get16_congr hbefore (by omega)]
    exact Block.get16_put16 _ _ _
  · rw [Block.xorHalves, Block.xorHalves_congr hbefore (by omega)]
    change _ ^^^ Block.get16 (Block.put16 _ 0x1FE _) 0x1FE = 0
    rw [Block.get16_put16]
    exact BitVec.xor_self
  · rw [Block.get16_congr hbefore (by omega)]
    simp (disch := omega) only [labelFields, Block.get16_put16_apart, Block.get16_put32_apart,
      Block.get16_put16]
    rfl
  · rw [Block.get16_congr hbefore (by omega)]
    simp (disch := omega) only [labelFields, Block.get16_put16_apart, Block.get16_put32_apart,
      Block.get16_put16]
    rfl
  · rw [Block.get16_congr hbefore (by omega)]
    simp (disch := omega) only [labelFields, Block.get16_put16_apart, Block.get16_put32_apart,
      Block.get16_put16]
    rw [BitVec.toNat_setWidth, hcyl]
    omega
  · rw [Block.get32_congr hbefore (by omega)]
    simp (disch := omega) only [labelFields, Block.get32_put16_apart, Block.get32_put32_apart,
      Block.get32_put32]
  · rw [Block.get32_congr hbefore (by omega), ← hblocks]
    simp (disch := omega) only [labelFields, Block.get32_put16_apart, Block.get32_put32_apart,
      Block.get32_put32]
  · rw [Block.get32_congr hbefore (by omega)]
    simp (disch := omega) only [labelFields, Block.get32_put16_apart, Block.get32_put32_apart,
      Block.get32_put32]
  · rw [Block.get32_congr hbefore (by omega), ← hblocks]
    simp (disch := omega) only [labelFields, Block.get32_put16_apart, Block.get32_put32]

theorem ValidLabel.congr {l l' : Block} {sz : Nat} (h : ValidLabel l sz)
    (hl : ∀ i < 512, l' i = l i) : ValidLabel l' sz := by
  refine ⟨?_, ?_, ?_, ?_, ?_, ⟨?_, ?_, ?_, ?_⟩⟩
  · rw [Block.get16_congr hl (by omega), h.magic]
  · rw [Block.xorHalves_congr hl (by omega), h.checksum]
  · rw [Block.get16_congr hl (by omega), h.nhead]
  · rw [Block.get16_congr hl (by omega), h.nsect]
  · rw [Block.get16_congr hl (by omega), h.ncyl]
  · rw [Block.get32_congr hl (by omega), h.partitions.startB]
  · rw [Block.get32_congr hl (by omega), h.partitions.blocksB]
  · rw [Block.get32_congr hl (by omega), h.partitions.startC]
  · rw [Block.get32_congr hl (by omega), h.partitions.blocksC]

/-! ## The test and the label -/

theorem halfword_high (b0 b1 : U8) :
    ((b0.setWidth 16 <<< 8 ||| b1.setWidth 16) >>> 8).setWidth 8 = b0 := by
  ext i hi
  interval_cases i <;> simp

theorem halfword_low (b0 b1 : U8) :
    (b0.setWidth 16 <<< 8 ||| b1.setWidth 16).setWidth 8 = b1 := by
  ext i hi
  interval_cases i <;> simp

theorem get16_eq_DABE_iff (l : Block) (o : Nat) :
    l.get16 o = 0xDABE ↔ l o = 0xDA ∧ l (o + 1) = 0xBE := by
  unfold Block.get16
  constructor
  · intro h
    refine ⟨?_, ?_⟩
    · rw [← halfword_high (l o) (l (o + 1)), h]
      rfl
    · rw [← halfword_low (l o) (l (o + 1)), h]
      rfl
  · rintro ⟨hhi, hlo⟩
    rw [hhi, hlo]
    rfl

theorem describesFile_iff {l : Block} {sz : Nat} (h : sz < 2 ^ 41) :
    DescribesFile l (labelCylinders sz) ↔
      l.get16 0x1FC = 0xDABE ∧ (l.get16 0x1B0).toNat = cylinders sz ∧
        l.get16 0x1B4 = 16 ∧ l.get16 0x1B6 = 63 := by
  have hcyl := toNat_labelCylinders h
  have hmax : cylinders sz ≤ 65535 := by
    unfold cylinders
    omega
  have hnat : l.get16 0x1B0 = (labelCylinders sz).setWidth 16 ↔
      (l.get16 0x1B0).toNat = cylinders sz := by
    rw [← BitVec.toNat_inj, BitVec.toNat_setWidth, hcyl, Nat.mod_eq_of_lt (by omega)]
  unfold DescribesFile
  rw [hnat, get16_eq_DABE_iff, and_assoc]
  rfl

theorem validLabel_iff {l : Block} {sz : Nat} (h : sz < 2 ^ 41) :
    ValidLabel l sz ↔
      DescribesFile l (labelCylinders sz) ∧ l.xorHalves 256 = 0 ∧ WholeDisk l sz := by
  rw [describesFile_iff h]
  constructor
  · intro hv
    exact ⟨⟨hv.magic, hv.ncyl, hv.nhead, hv.nsect⟩, hv.checksum, hv.partitions⟩
  · rintro ⟨⟨hmagic, hncyl, hnhead, hnsect⟩, hck, hparts⟩
    exact ⟨hmagic, hck, hnhead, hnsect, hncyl, hparts⟩

theorem DescribesFile.congr {l l' : Block} {ncyl : U32} (hl : ∀ i < 512, l' i = l i) :
    DescribesFile l' ncyl ↔ DescribesFile l ncyl := by
  unfold DescribesFile
  rw [hl _ (by omega), hl _ (by omega), Block.get16_congr hl (by omega),
    Block.get16_congr hl (by omega), Block.get16_congr hl (by omega)]

/-- The label of an image as `fread` finds it. -/
def HasLabel (f : Image) : Prop := 512 ≤ f.size ∧ DescribesFile f.byte (labelCylinders f.size)

instance (f : Image) : Decidable (HasLabel f) := inferInstanceAs (Decidable (_ ∧ _))

theorem labelWritten_eq (f : Image) (hpos : 0 < f.size) :
    labelWritten f = if HasLabel f then none else some (sunLabel (labelCylinders f.size)) := by
  have hlen : (f.read 0 512).length = 512 ↔ 512 ≤ f.size := by
    rw [Image.length_read]
    omega
  have htest : ((f.read 0 512).length = 512 ∧
      DescribesFile (fun i => (f.read 0 512).getD i 0) (labelCylinders f.size)) ↔ HasLabel f := by
    unfold HasLabel
    rw [hlen]
    apply and_congr_right
    intro hsize
    apply DescribesFile.congr
    intro i hi
    rw [List.getD_eq_getElem?_getD, Image.getElem?_read f 0 512 i (by omega), Nat.zero_add]
    rfl
  unfold labelWritten
  rw [if_neg (by omega)]
  dsimp only
  simp only [htest]

/-! ## Attaching a disk -/

/-- What attaching the image `f` leaves: its label is valid for its size, the rest is
as it was, and attaching it again writes nothing. -/
structure Labelled (f g : Image) : Prop where
  grown : g.size = max f.size 512
  valid : ValidLabel g.byte f.size
  outside : ∀ i, 512 ≤ i → i < f.size → g.byte i = f.byte i
  again : labelWritten g = none

def Attached (f : Image) : Prop := ∃ g, sdEnsureLabel (some f) = some g ∧ Labelled f g

theorem attached_iff_labelled (f : Image) : Attached f ↔ Labelled f (ensureLabel f) := by
  constructor
  · rintro ⟨g, hg, h⟩
    obtain rfl : ensureLabel f = g := Option.some.inj hg
    exact h
  · exact fun h => ⟨ensureLabel f, rfl, h⟩

theorem ensureLabel_of_hasLabel {f : Image} (h : HasLabel f) : ensureLabel f = f := by
  have hpos : 0 < f.size := by
    have hsize := h.1
    omega
  unfold ensureLabel
  rw [labelWritten_eq f hpos, if_pos h]

theorem Image.byte_write (f : Image) (off : Nat) (bs : List U8) (i : Nat) :
    (f.write off bs).byte i =
      if off ≤ i ∧ i < off + bs.length then bs.getD (i - off) 0
      else if i < f.size then f.byte i else 0 := rfl

theorem ensureLabel_of_not {f : Image} (hpos : 0 < f.size) (h : ¬ HasLabel f) :
    (ensureLabel f).size = max f.size 512 ∧
      (∀ i < 512, (ensureLabel f).byte i = sunLabel (labelCylinders f.size) i) ∧
      ∀ i, 512 ≤ i → i < f.size → (ensureLabel f).byte i = f.byte i := by
  have hwrite : ensureLabel f =
      f.write 0 ((List.range 512).map (sunLabel (labelCylinders f.size))) := by
    unfold ensureLabel
    rw [labelWritten_eq f hpos, if_neg h]
  have hlen : ((List.range 512).map (sunLabel (labelCylinders f.size))).length = 512 := by
    rw [List.length_map, List.length_range]
  have hne : (List.range 512).map (sunLabel (labelCylinders f.size)) ≠ [] := by
    rw [← List.length_pos_iff, hlen]
    omega
  rw [hwrite]
  refine ⟨?_, fun i hi => ?_, fun i hlo hhi => ?_⟩
  · rw [Image.write, if_neg hne, hlen, Nat.zero_add]
  · rw [Image.byte_write, hlen, if_pos (by omega), List.getD_eq_getElem?_getD, List.getElem?_map,
      List.getElem?_range (by omega)]
    rfl
  · rw [Image.byte_write, hlen, if_neg (by omega), if_pos hhi]

theorem labelCylinders_max (sz : Nat) : labelCylinders (max sz 512) = labelCylinders sz := by
  by_cases h : 512 ≤ sz
  · rw [Nat.max_eq_left h]
  · have hzero : sz / 512 = 0 := by omega
    rw [Nat.max_eq_right (by omega), labelCylinders, labelCylinders, hzero]
    rfl

/-- A label with the magic number and the geometry of the file is left alone
whatever else is in it: the disk is attached with a valid label exactly when
such a label, if there is one, has the right checksum and partitions. -/
theorem attached_iff (f : Image) (hpos : 0 < f.size) (hsize : f.size < 2 ^ 41) :
    Attached f ↔ (HasLabel f → Block.xorHalves f.byte 256 = 0 ∧ WholeDisk f.byte f.size) := by
  rw [attached_iff_labelled]
  by_cases h : HasLabel f
  · have hsame := ensureLabel_of_hasLabel h
    have hblock := h.1
    constructor
    · intro ha _
      have hvalid := ha.valid
      rw [hsame, validLabel_iff hsize] at hvalid
      exact hvalid.2
    · intro hrest
      refine ⟨?_, ?_, ?_, ?_⟩
      · rw [hsame]
        omega
      · rw [hsame, validLabel_iff hsize]
        exact ⟨h.2, hrest h⟩
      · intro i _ _
        rw [hsame]
      · rw [hsame, labelWritten_eq f hpos, if_pos h]
  · obtain ⟨hgrown, hlabel, houtside⟩ := ensureLabel_of_not hpos h
    refine iff_of_true ⟨hgrown, ?_, houtside, ?_⟩ fun h' => absurd h' h
    · exact (sunLabel_valid hsize).congr hlabel
    · have hhas : HasLabel (ensureLabel f) := by
        refine ⟨by omega, ?_⟩
        rw [hgrown, labelCylinders_max, DescribesFile.congr hlabel]
        exact ((validLabel_iff hsize).1 (sunLabel_valid hsize)).1
      rw [labelWritten_eq _ (by omega), if_pos hhas]

/-- A new disk of 1 MiB gets a valid label. -/
theorem attached_new : Attached ⟨2 ^ 20, fun _ => 0⟩ :=
  (attached_iff ⟨2 ^ 20, fun _ => 0⟩ (by decide) (by decide)).2
    fun h => absurd h.2.1 (by decide)

/-- One block with the magic number and the geometry of its size, the rest zero. -/
def bareLabel : Image where
  size := 512
  byte :=
    let zeros : Block := fun _ => 0
    (((zeros.put16 0x1B0 1).put16 0x1B4 16).put16 0x1B6 63).put16 0x1FC 0xDABE

theorem bareLabel_not_attached : ¬ Attached bareLabel := by
  intro h
  have hkept : ensureLabel bareLabel = bareLabel :=
    ensureLabel_of_hasLabel ⟨by decide, by decide⟩
  have hblocks := ((attached_iff_labelled bareLabel).1 h).valid.partitions.blocksB
  rw [hkept] at hblocks
  exact absurd hblocks (by decide)

end Nx88
