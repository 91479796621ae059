import Nx88.Mmu.Tables
import Nx88.Image
/-!
# Loading a.out images

The header check of `aout.c` and the three loaders behind it: `run_user`,
`run_sys` and the hand load of `proc_experiment`.  The image is the block
`aout_load` allocated for it, and a loader that reads past its end has no
result.
-/

namespace Nx88

open Lib.Words

def HDR_PAGE : Nat := 8192

def TEXT_BASE : U32 := 0xC0010000
def DATA_BASE : U32 := 0xC1000000

/-! ## The image -/

namespace Image

def be32At (f : Image) (off : Nat) : U32 :=
  be32 (f.byte off) (f.byte (off + 1)) (f.byte (off + 2)) (f.byte (off + 3))

def byte? (f : Image) (i : Nat) : Option U8 := if i < f.size then some (f.byte i) else none

theorem isSome_byte? (f : Image) (i : Nat) : (f.byte? i).isSome ↔ i < f.size := by
  unfold byte?
  by_cases h : i < f.size
  · simp [h]
  · simp [h]

end Image

structure AOut where
  img : Image
  magic : U32
  text : U32
  data : U32
  bss : U32
  syms : U32
  entry : U32
  trsize : U32
  drsize : U32

/-- Accept an image by its length and the low half of its magic number. -/
def aoutParse (f : Image) : Option AOut :=
  if f.size < 32 then none
  else
    let a : AOut := ⟨f, f.be32At 0, f.be32At 4, f.be32At 8, f.be32At 12, f.be32At 16, f.be32At 20,
      f.be32At 24, f.be32At 28⟩
    if a.magic &&& 0xFFFF = 0x010B then some a else none

/-! ## `run_user` and `run_sys` -/

/-- `mem_load(addr, img + off, n)`. -/
def copyImage (f : Image) (m : Mem) (addr : U32) (off : Nat) : Nat → Option Mem
  | 0 => some m
  | n + 1 => (f.byte? off).bind fun b => copyImage f (m.w8 addr b) (addr + 1) (off + 1) n

/-- Text at `tload` and data at `dload`, taken from behind the header page. -/
def loadSegments (a : AOut) (m : Mem) (tload dload : U32) : Option Mem :=
  (copyImage a.img m tload HDR_PAGE a.text.toNat).bind fun m =>
    (copyImage a.img m dload (HDR_PAGE + a.text.toNat) a.data.toNat).map fun m =>
      m.zero (dload + a.data) a.bss.toNat

def runUserLoad (m : Mem) (a : AOut) : Option Mem :=
  loadSegments a m 0 ((a.text + 4095) &&& ~~~(4095 : U32))

/-- Under `--dataphys` the data follow the text, and `translate` is told. -/
def runSysLoad (m : Machine) (dataphys : Bool) (a : AOut) : Option Machine :=
  let tload := if m.mem.realmm then TEXT_BASE - KOFF else TEXT_BASE
  let dload := if m.mem.realmm then DATA_BASE - KOFF else DATA_BASE
  let placed := m.mem.realmm ∧ dataphys
  let dload := if placed then tload + a.text else dload
  let cfg := if placed then { m.cfg with kdataVa := DATA_BASE, kdataOff := DATA_BASE - dload }
    else m.cfg
  (loadSegments a m.mem tload dload).map fun mem => { m with cfg := cfg, mem := mem }

/-! ## The hand load -/

/-- Where the hand load takes the segments from and puts them: a tape image has
its text behind a header page, a standard one has the header in the text. -/
structure HandLayout where
  txtaddr : U32
  txtoff : U32
  dataddr : U32
  datoff : U32
  imgHi : U32

def handLayout (a : AOut) : HandLayout :=
  let std : Bool := (a.magic >>> 16) &&& 0xFF ≠ 0
  let txtoff : U32 := if std then 0 else 8192
  let txtaddr : U32 := if std then 8192 else 0
  let dataddr := txtaddr + ((a.text + 4095) &&& ~~~(4095 : U32))
  ⟨txtaddr, txtoff, dataddr, txtoff + a.text, (dataddr + a.data + a.bss + 0x1FFF) &&& ~~~(0x1FFF : U32)⟩

/-- The byte that belongs at user address `o`. -/
def handByte (a : AOut) (l : HandLayout) (o : U32) : Option U8 :=
  if l.txtaddr ≤ o ∧ o < l.txtaddr + a.text then a.img.byte? (l.txtoff + (o - l.txtaddr)).toNat
  else if l.dataddr ≤ o ∧ o < l.dataddr + a.data then
    a.img.byte? (l.datoff + (o - l.dataddr)).toNat
  else some 0

/-- The rest of one page, `n` bytes from user address `o` into `pa`. -/
def handPage (a : AOut) (l : HandLayout) (m : Mem) (o pa : U32) : Nat → Option Mem
  | 0 => some m
  | n + 1 => (handByte a l o).bind fun b => handPage a l (m.w8 pa b) (o + 1) (pa + 1) n

namespace Machine

def kr32 (m : Machine) (va : U32) : U32 × Machine :=
  let (pa, m) := m.translate va false
  (m.mem.r32 pa, m)

/-- Walk an address space through the kernel's own tables: by the hardware's
walk, else through the kernel addresses the tables were built at. -/
def kwalk (m : Machine) (pmap va : U32) : Option U32 × Machine :=
  let (stva, m) := m.kr32 pmap
  let (stpa, m) := m.kr32 (pmap + 4)
  match m.mem.mmuWalk m.ktabBias (stpa ||| 1) va with
  | some (pa, _) => (some pa, m)
  | none =>
    let bias := stva - stpa
    let (sd, m) := m.kr32 (stva + ((va >>> 22) &&& 0x3FF) * 4)
    if sd &&& 1 = 0 then (none, m)
    else
      let ptva := (sd &&& 0x3FFFF000) + bias
      let (pd, m) := m.kr32 (ptva + ((va >>> 12) &&& 0x3FF) * 4)
      if pd &&& 1 = 0 then (none, m) else (some (pageAddr pd ||| offsetOf va), m)

/-- The pages from `va` on, `n` of them; unmapped ones are counted and passed over. -/
def handPages (a : AOut) (l : HandLayout) (pmap : U32) (m : Machine) (va missing : U32) :
    Nat → Option (U32 × Machine)
  | 0 => some (missing, m)
  | n + 1 =>
    match m.kwalk pmap va with
    | (none, m) => handPages a l pmap m (va + 4096) (missing + 1) n
    | (some pa, m) =>
      (handPage a l m.mem va pa 4096).bind fun mem =>
        handPages a l pmap (m.setMem mem) (va + 4096) missing n

/-- The copy loop of `proc_experiment`; `img_hi` is a whole number of pages. -/
def handLoad (m : Machine) (pmap : U32) (a : AOut) : Option (U32 × Machine) :=
  let l := handLayout a
  handPages a l pmap m 0 0 (l.imgHi.toNat / 4096)

end Machine

/-! ## What each loader reads -/

theorem isSome_copyImage (f : Image) (m : Mem) (addr : U32) (off n : Nat) :
    (copyImage f m addr off n).isSome ↔ n = 0 ∨ off + n ≤ f.size := by
  induction n generalizing m addr off with
  | zero => simp [copyImage]
  | succ n ih =>
    rw [copyImage]
    by_cases hoff : off < f.size
    · rw [Image.byte?, if_pos hoff, Option.bind_some, ih]
      omega
    · rw [Image.byte?, if_neg hoff, Option.bind_none]
      simp only [Option.isSome_none, Bool.false_eq_true, false_iff]
      omega

/-- The bytes the header announces, from `off` on, lie in the image. -/
def Announced (off : Nat) (f : Image) (text data : U32) : Prop :=
  text.toNat + data.toNat = 0 ∨ off + text.toNat + data.toNat ≤ f.size

theorem isSome_loadSegments (a : AOut) (m : Mem) (tload dload : U32) :
    (loadSegments a m tload dload).isSome ↔ Announced HDR_PAGE a.img a.text a.data := by
  unfold loadSegments Announced
  have htext := isSome_copyImage a.img m tload HDR_PAGE a.text.toNat
  cases hcopy : copyImage a.img m tload HDR_PAGE a.text.toNat with
  | none =>
    rw [hcopy] at htext
    simp only [Option.isSome_none, Bool.false_eq_true, false_iff] at htext
    simp only [Option.bind_none, Option.isSome_none, Bool.false_eq_true, false_iff]
    omega
  | some m' =>
    rw [hcopy] at htext
    simp only [Option.isSome_some, true_iff] at htext
    rw [Option.bind_some, Option.isSome_map, isSome_copyImage]
    omega

/-- The offset of a byte in its segment, whatever wraps around. -/
theorem segment_index {lo n o : U32} (off : U32) (hlo : lo ≤ o) (hhi : o < lo + n) :
    ∃ k < n.toNat, (off + (o - lo)).toNat ≤ off.toNat + k := by
  refine ⟨o.toNat - lo.toNat, ?_, ?_⟩
  · rw [BitVec.le_def] at hlo
    rw [BitVec.lt_def, BitVec.toNat_add] at hhi
    have hn := n.isLt
    omega
  · rw [BitVec.le_def] at hlo
    rw [BitVec.toNat_add, BitVec.toNat_sub]
    have ho := o.isLt
    omega

theorem isSome_handByte {a : AOut} (o : U32)
    (h : Announced (handLayout a).txtoff.toNat a.img a.text a.data) :
    (handByte a (handLayout a) o).isSome := by
  unfold Announced at h
  unfold handByte
  split
  · rename_i htext
    obtain ⟨k, hk, hle⟩ := segment_index (handLayout a).txtoff htext.1 htext.2
    rw [Image.isSome_byte?]
    omega
  · split
    · rename_i hdata
      obtain ⟨k, hk, hle⟩ := segment_index (handLayout a).datoff hdata.1 hdata.2
      have hdatoff : (handLayout a).datoff.toNat ≤ (handLayout a).txtoff.toNat + a.text.toNat := by
        change ((handLayout a).txtoff + a.text).toNat ≤ _
        rw [BitVec.toNat_add]
        exact Nat.mod_le _ _
      rw [Image.isSome_byte?]
      omega
    · rfl

theorem isSome_handPage {a : AOut} (m : Mem) (o pa : U32) (n : Nat)
    (h : Announced (handLayout a).txtoff.toNat a.img a.text a.data) :
    (handPage a (handLayout a) m o pa n).isSome := by
  induction n generalizing m o pa with
  | zero => rfl
  | succ n ih =>
    obtain ⟨b, hb⟩ := Option.isSome_iff_exists.1 (isSome_handByte o h)
    rw [handPage, hb, Option.bind_some]
    exact ih (m.w8 pa b) (o + 1) (pa + 1)

theorem Machine.isSome_handPages {a : AOut} (pmap : U32) (m : Machine) (va missing : U32) (n : Nat)
    (h : Announced (handLayout a).txtoff.toNat a.img a.text a.data) :
    (handPages a (handLayout a) pmap m va missing n).isSome := by
  induction n generalizing m va missing with
  | zero => rfl
  | succ n ih =>
    rw [handPages]
    split
    · exact ih _ _ _
    · rename_i pa m' hwalk
      obtain ⟨mem, hmem⟩ := Option.isSome_iff_exists.1 (isSome_handPage m'.mem va pa 4096 h)
      rw [hmem, Option.bind_some]
      exact ih _ _ _

/-! ## Accepted images -/

/-- The offset of the text in the file, by the layout the magic number names. -/
def textOffset (f : Image) : Nat :=
  if (f.be32At 0 >>> 16) &&& 0xFF ≠ 0 then 0 else HDR_PAGE

/-- The end of what the header announces. -/
def announcedEnd (f : Image) : Nat :=
  if (f.be32At 4).toNat + (f.be32At 8).toNat = 0 then 0
  else textOffset f + (f.be32At 4).toNat + (f.be32At 8).toNat

/-- No loader reads past the end of an accepted image, and an image that ends
before what it announces is rejected. -/
structure SegmentsInside (f : Image) : Prop where
  user : ∀ a, aoutParse f = some a → ∀ m, (runUserLoad m a).isSome
  sys : ∀ a, aoutParse f = some a → ∀ m dataphys, (runSysLoad m dataphys a).isSome
  hand : ∀ a, aoutParse f = some a → ∀ (m : Machine) pmap, (m.handLoad pmap a).isSome
  reject : f.size < announcedEnd f → aoutParse f = none

theorem aoutParse_eq_some {f : Image} {a : AOut} (h : aoutParse f = some a) :
    32 ≤ f.size ∧ f.be32At 0 &&& 0xFFFF = 0x010B ∧ a.img = f ∧ a.magic = f.be32At 0 ∧
      a.text = f.be32At 4 ∧ a.data = f.be32At 8 := by
  unfold aoutParse at h
  split at h
  · exact absurd h (by simp)
  · dsimp only at h
    split at h
    · cases h
      exact ⟨by omega, ‹_›, rfl, rfl, rfl, rfl⟩
    · exact absurd h (by simp)

theorem aoutParse_isSome {f : Image} (hsize : 32 ≤ f.size)
    (hmagic : f.be32At 0 &&& 0xFFFF = 0x010B) : ∃ a, aoutParse f = some a := by
  unfold aoutParse
  rw [if_neg (by omega)]
  exact ⟨_, if_pos hmagic⟩

theorem toNat_handLayout_txtoff {f : Image} {a : AOut} (h : aoutParse f = some a) :
    (handLayout a).txtoff.toNat = textOffset f := by
  obtain ⟨-, -, -, hmagic, -, -⟩ := aoutParse_eq_some h
  change (if decide ((a.magic >>> 16) &&& 0xFF ≠ 0) = true then (0 : U32) else 8192).toNat = _
  rw [hmagic]
  unfold textOffset
  by_cases hstd : (f.be32At 0 >>> 16) &&& 0xFF ≠ 0
  · rw [if_pos (decide_eq_true hstd), if_pos hstd]
    rfl
  · rw [if_neg fun h => hstd (of_decide_eq_true h), if_neg hstd]
    rfl

/-- What reaches behind the header page reaches from the start of the file. -/
theorem Announced.textOffset {f : Image} (h : Announced HDR_PAGE f (f.be32At 4) (f.be32At 8)) :
    Announced (textOffset f) f (f.be32At 4) (f.be32At 8) := by
  unfold Announced at *
  have hle : Nx88.textOffset f ≤ HDR_PAGE := by
    unfold Nx88.textOffset
    split <;> omega
  omega

/-- The header check compares the segment sizes with nothing: accepted images
are read inside exactly when both segments are empty or the file goes on to
their end behind a header page. -/
theorem segmentsInside_iff (f : Image) : SegmentsInside f ↔
    (32 ≤ f.size → f.be32At 0 &&& 0xFFFF = 0x010B →
      Announced HDR_PAGE f (f.be32At 4) (f.be32At 8)) := by
  constructor
  · intro h hsize hmagic
    obtain ⟨a, ha⟩ := aoutParse_isSome hsize hmagic
    obtain ⟨-, -, himg, -, htext, hdata⟩ := aoutParse_eq_some ha
    have hread := (isSome_loadSegments a _ _ _).1 (h.user a ha ⟨false, fun _ _ => 0⟩)
    rwa [himg, htext, hdata] at hread
  · intro h
    have hannounced : ∀ a, aoutParse f = some a →
        Announced HDR_PAGE a.img a.text a.data := by
      intro a ha
      obtain ⟨hsize, hmagic, himg, -, htext, hdata⟩ := aoutParse_eq_some ha
      rw [himg, htext, hdata]
      exact h hsize hmagic
    refine ⟨fun a ha m => ?_, fun a ha m dataphys => ?_, fun a ha m pmap => ?_, fun hshort => ?_⟩
    · exact (isSome_loadSegments a m _ _).2 (hannounced a ha)
    · unfold runSysLoad
      rw [Option.isSome_map]
      exact (isSome_loadSegments a m.mem _ _).2 (hannounced a ha)
    · obtain ⟨hsize, hmagic, himg, -, htext, hdata⟩ := aoutParse_eq_some ha
      apply Machine.isSome_handPages
      rw [toNat_handLayout_txtoff ha, himg, htext, hdata]
      exact (h hsize hmagic).textOffset
    · rw [Option.eq_none_iff_forall_ne_some]
      intro a ha
      obtain ⟨hsize, hmagic, -⟩ := aoutParse_eq_some ha
      have hend := (h hsize hmagic).textOffset
      unfold announcedEnd at hshort
      unfold Announced at hend
      split at hshort <;> omega

def bareHeader : Image where
  size := 32
  byte i := if i = 2 ∨ i = 7 then 1 else if i = 3 then 0x0B else 0

/-- The bare header is accepted, and `run_user` reads at 8192. -/
theorem bareHeader_read_outside : ¬ SegmentsInside bareHeader := by
  intro h
  obtain ⟨a, ha⟩ := aoutParse_isSome (f := bareHeader) (by decide) (by decide)
  obtain ⟨-, -, himg, -, htext, hdata⟩ := aoutParse_eq_some ha
  have hread := (isSome_loadSegments a _ _ _).1 (h.user a ha ⟨false, fun _ _ => 0⟩)
  rw [himg, htext, hdata] at hread
  revert hread
  unfold Announced
  decide

end Nx88
