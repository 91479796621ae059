import Nx88.Disk.Transfer
import Nx88.Reset
/-!
# Complete requests

The strategy, the wait for a buffer and the SHA report every request complete.
Which of them have been performed.
-/

namespace Nx88

open Lib.Words Lib.Scatter

namespace Machine

/-! ## Buffers -/

variable {m : Machine} {b : Buf} {phys : U32 → U32}

@[simp] theorem isRoot_reimage (f g : Image) : (m.reimage f g).isRoot b = m.isRoot b := by
  unfold isRoot noteRoot
  split
  · rename_i h
    rw [if_pos (show m.dev.rootDevVp = 0 from h)]
  · rename_i h
    rw [if_neg (show ¬m.dev.rootDevVp = 0 from h)]
    rfl

theorem device_reimage (f g : Image) :
    (m.reimage f g).device b = (m.device b).map fun _ => if m.isRoot b then f else g := by
  unfold device
  rw [isRoot_reimage]
  split
  · rfl
  · rfl

theorem taken_reimage (f g : Image) : (m.reimage f g).Taken b ↔ m.Taken b := by
  unfold Taken
  rw [device_reimage]
  simp only [ne_eq, Option.map_eq_none_iff]

theorem mapped_reimage {addr : U32} {n : Nat} (h : m.Mapped addr n phys) (f g : Image) :
    (m.reimage f g).Mapped addr n phys := h.moved rfl (.device _ .refl)

theorem content_holding {img : Option Image} (himg : img ≠ none) {n i : Nat}
    (off : Nat) (val : Nat → U8) (hi : i < n) :
    content (img.map fun _ => Image.holding off n val) (off + i) = val i := by
  cases img with
  | none => exact absurd rfl himg
  | some f => exact Image.holding_byteAt off val hi

instance : Nontrivial U8 := ⟨0, 1, by decide⟩

theorem readDone_iff (hread : isRead b) (hmap : m.Mapped b.addr b.bcount.toNat phys) :
    (∀ f g h, BufDone (m.reimage f g) ((m.reimage f g).transfer h b) b phys) ↔
      BufOk m b phys := by
  unfold BufOk
  simp only [BufDone, if_pos hread]
  constructor
  · intro hdone
    by_cases hzero : b.bcount = 0
    · exact .inl hzero
    refine .inr ?_
    have hpos : 0 < b.bcount.toNat := by
      rcases Nat.eq_zero_or_pos b.bcount.toNat with h0 | hpos
      · exact absurd (BitVec.eq_of_toNat_eq h0) hzero
      · exact hpos
    have hback : ∀ val : Nat → U8, ReadBack (cphys m.mem.realmm) m.mem.r8
        (scatter (cphys m.mem.realmm) m.mem.r8 (wordPlace phys b.addr) val
          (if m.Taken b then 4 * wordsOf b.bcount.toNat else 0))
        (bytePlace phys b.addr) val b.bcount.toNat := by
      intro val
      let f := Image.holding (b.blkno.toNat * 512) b.bcount.toNat val
      let h : Host := { Host.blank with tmp := val }
      have hd := hdone f f h
      have hdev : (m.reimage f f).device b = (m.device b).map fun _ => f := by
        rw [device_reimage, ite_self]
      have hopen : m.device b ≠ none := fun hnone => hd.source hpos (by rw [hdev, hnone]; rfl)
      obtain ⟨hr8, -, -⟩ := transfer_read (m := m.reimage f f) h hread (mapped_reimage hmap f f)
      have hb := hd.back
      rw [hr8] at hb
      simp only [taken_reimage] at hb
      have hcontent : ∀ i < b.bcount.toNat,
          content ((m.reimage f f).device b) (b.blkno.toNat * 512 + i) = val i := by
        intro i hi
        rw [hdev]
        exact content_holding hopen (b.blkno.toNat * 512) val hi
      have hscatter : scatter (cphys m.mem.realmm) m.mem.r8 (wordPlace phys b.addr)
          (fun i => if i < b.bcount.toNat then
            content ((m.reimage f f).device b) (b.blkno.toNat * 512 + i) else h.tmp i)
          (if m.Taken b then 4 * wordsOf b.bcount.toNat else 0) =
          scatter (cphys m.mem.realmm) m.mem.r8 (wordPlace phys b.addr) val
            (if m.Taken b then 4 * wordsOf b.bcount.toNat else 0) := by
        refine scatter_congr fun i _ => ?_
        by_cases hi : i < b.bcount.toNat
        · rw [if_pos hi]
          exact hcontent i hi
        · exact if_neg hi
      have hb' := readBack_congr hb hcontent
      exact hscatter ▸ hb'
    have hplaced := placed_of_readBack (r8_respects m) hback
    by_cases ht : m.Taken b
    · rw [if_pos ht] at hplaced
      exact ⟨ht, hplaced⟩
    · rw [if_neg ht] at hplaced
      exact absurd hplaced.full (by omega)
  · intro hok f g h
    obtain ⟨hr8, hroot, hdisk⟩ :=
      transfer_read (m := m.reimage f g) h hread (mapped_reimage hmap f g)
    simp only [taken_reimage] at hr8
    rcases hok with hzero | ⟨ht, hplaced⟩
    · have hn : b.bcount.toNat = 0 := by rw [hzero]; rfl
      refine ⟨fun hpos => by omega, ⟨fun i hi => by omega, fun c _ => ?_⟩, hroot, hdisk⟩
      rw [hr8, hn, show 4 * wordsOf 0 = 0 from rfl, ite_self]
      rfl
    · refine ⟨fun _ => ?_, ?_, hroot, hdisk⟩
      · rw [device_reimage]
        simp only [ne_eq, Option.map_eq_none_iff]
        exact ht.1
      · rw [hr8, if_pos ht]
        exact readBack_congr (readBack_of_placed hplaced _) fun i hi => by rw [if_pos hi]

theorem content_write (f : Image) (off : Nat) (bs : List U8) (x : Nat) :
    content (some (f.write off bs)) x =
      if off ≤ x ∧ x < off + bs.length then bs.getD (x - off) 0 else content (some f) x :=
  f.write_byteAt off bs x

/-- What a write leaves behind `off` is what it wrote, and the rest of the image. -/
theorem content_written (f : Image) (off n : Nat) (val : Nat → U8) :
    (∀ i < n, content (some (f.write off ((List.range n).map val))) (off + i) = val i) ∧
      ∀ x, (x < off ∨ off + n ≤ x) →
        content (some (f.write off ((List.range n).map val))) x = content (some f) x := by
  have hlen : ((List.range n).map val).length = n := by rw [List.length_map, List.length_range]
  refine ⟨fun i hi => ?_, fun x hx => ?_⟩
  · rw [content_write, hlen, if_pos (by omega), Nat.add_sub_cancel_left,
      List.getD_eq_getElem?_getD, List.getElem?_map, List.getElem?_range hi]
    rfl
  · rw [content_write, hlen, if_neg (by omega)]

theorem writeDone_iff (hwrite : ¬isRead b) (hmap : m.Mapped b.addr b.bcount.toNat phys) :
    (∀ f g h, BufDone (m.reimage f g) ((m.reimage f g).transfer h b) b phys) ↔
      BufOk m b phys := by
  unfold BufOk
  simp only [BufDone, if_neg hwrite, isRoot_reimage]
  cases hroot : m.isRoot b with
  | true =>
    simp only [if_true, true_or, or_true, iff_true]
    exact fun f g h => transfer_root h hwrite ((isRoot_reimage f g).trans hroot)
  | false =>
    simp only [Bool.false_eq_true, if_false, false_or]
    have hdevice : ∀ k : Machine, k.isRoot b = false → k.device b = k.dev.diskImg := by
      intro k hk
      rw [device, hk]
      rfl
    have heff := fun f g h => transfer_write h hwrite ((isRoot_reimage f g).trans hroot)
      (mapped_reimage hmap f g)
    constructor
    · intro hdone
      by_cases hzero : b.bcount = 0
      · exact .inl hzero
      have hpos : 0 < b.bcount.toNat := by
        rcases Nat.eq_zero_or_pos b.bcount.toNat with h0 | hpos
        · exact absurd (BitVec.eq_of_toNat_eq h0) hzero
        · exact hpos
      -- an image that does not hold the first byte, wherever it is taken from
      let val : Nat → U8 := fun _ => m.mem.r8 (bytePlace phys b.addr 0) + 1
      let f := Image.holding (b.blkno.toNat * 512) b.bcount.toNat val
      let h : Host := { Host.blank with tmp := val }
      have hd := hdone f f h
      obtain ⟨hdisk, -, -⟩ := heff f f h
      simp only [taken_reimage] at hdisk
      by_cases ht : m.Taken b
      · rw [if_pos ⟨ht, hzero⟩] at hdisk
        refine .inr ⟨ht, fun i hi => ?_⟩
        obtain ⟨hsome, hbyte⟩ := hd.data i hi
        have hopen : m.dev.diskImg ≠ none := by
          intro hnone
          rw [hdisk] at hsome
          exact hsome (by rw [reimage, hnone]; rfl)
        obtain ⟨f₀, hf₀⟩ := Option.ne_none_iff_exists'.1 hopen
        rw [hdisk, show (m.reimage f f).dev.diskImg = some f by rw [reimage, hf₀]; rfl] at hbyte
        have hwritten := (content_written f (b.blkno.toNat * 512) b.bcount.toNat
          fun i => m.mem.r8 (wordPlace phys b.addr i)).1 i hi
        exact hwritten.symm.trans hbyte
      · rw [if_neg (fun h => ht h.1)] at hdisk
        obtain ⟨hsome, hbyte⟩ := hd.data 0 hpos
        rw [hdisk] at hsome hbyte
        have hopen : m.dev.diskImg ≠ none := fun hnone =>
          hsome (by rw [reimage, hnone]; rfl)
        have hheld := content_holding hopen (b.blkno.toNat * 512) val hpos
        have hclash := hheld.symm.trans hbyte
        have hne : ∀ c : U8, c + 1 ≠ c := by decide
        exact absurd hclash (hne _)
    · intro hok f g h
      obtain ⟨hdisk, hmem, hrootImg⟩ := heff f g h
      simp only [taken_reimage] at hdisk
      rcases hok with hzero | ⟨ht, hsame⟩
      · have hn : b.bcount.toNat = 0 := by rw [hzero]; rfl
        rw [if_neg (fun h => h.2 hzero)] at hdisk
        exact ⟨fun i hi => by omega, fun x _ => by rw [hdisk], hmem, hrootImg⟩
      · by_cases hzero : b.bcount = 0
        · have hn : b.bcount.toNat = 0 := by rw [hzero]; rfl
          rw [if_neg (fun h => h.2 hzero)] at hdisk
          exact ⟨fun i hi => by omega, fun x _ => by rw [hdisk], hmem, hrootImg⟩
        rw [if_pos ⟨ht, hzero⟩] at hdisk
        have hopen : m.dev.diskImg ≠ none := by
          rw [← hdevice m hroot]
          exact ht.1
        obtain ⟨f₀, hf₀⟩ := Option.ne_none_iff_exists'.1 hopen
        have hg : (m.reimage f g).dev.diskImg = some g := by rw [reimage, hf₀]; rfl
        rw [hg, Option.map_some] at hdisk
        obtain ⟨hin, hout⟩ := content_written g (b.blkno.toNat * 512) b.bcount.toNat
          fun i => m.mem.r8 (wordPlace phys b.addr i)
        refine ⟨fun i hi => ⟨?_, ?_⟩, fun x hx => ?_, hmem, hrootImg⟩
        · rw [hdisk]
          exact Option.some_ne_none _
        · rw [hdisk]
          exact (hin i hi).trans (hsame i hi)
        · rw [hdisk, hg]
          exact hout x hx

/-- A buffer's request is performed, whatever the images and the stack hold,
exactly when it is within the bounds and its words lie in the places of its
bytes. -/
theorem bufDone_iff (hmap : m.Mapped b.addr b.bcount.toNat phys) :
    (∀ f g h, BufDone (m.reimage f g) ((m.reimage f g).transfer h b) b phys) ↔
      BufOk m b phys := by
  by_cases hread : isRead b
  · exact readDone_iff hread hmap
  · exact writeDone_iff hread hmap

/-! ## Commands of the SHA -/

def SdCommand.isRead (c : SdCommand) : Prop := c.op = 0x08 ∨ c.op = 0x28

def SdCommand.isWrite (c : SdCommand) : Prop := c.op = 0x0A ∨ c.op = 0x2A

/-- What completing a READ or WRITE stands for. -/
def SdDone (m m' : Machine) (c : SdCommand) : Prop :=
  (c.isRead → ReadDone m.dev.diskImg (c.lba.toNat * SDBLK) c.xfer.toNat (byteAddr c.dma) m m') ∧
    (c.isWrite → WriteDone (c.lba.toNat * SDBLK) c.xfer.toNat (byteAddr c.dma) m m')

/-- Where the command is performed: on an open disk, within the buffer, away
from address 0, and for a read with no two bytes in one place. -/
def SdOk (m : Machine) (c : SdCommand) : Prop :=
  c.xfer = 0 ∨
    m.dev.diskImg ≠ none ∧ c.dma ≠ 0 ∧ c.xfer.toNat ≤ BUFSIZE ∧
      (c.isRead → ∀ i < c.xfer.toNat, ∀ j < c.xfer.toNat, i ≠ j →
        cphys m.mem.realmm (byteAddr c.dma i) ≠ cphys m.mem.realmm (byteAddr c.dma j))

variable {c : SdCommand}

theorem readPadded_eq (img : Option Image) (off n : Nat) :
    readPadded img off n = (List.range n).map fun i => content img (off + i) := by
  cases img with
  | none =>
    rw [readPadded]
    refine (List.eq_replicate_iff.2 ⟨?_, ?_⟩).symm
    · rw [List.length_map, List.length_range]
    · intro b hb
      obtain ⟨i, -, rfl⟩ := List.mem_map.1 hb
      rfl
  | some f =>
    have hlen : (readPadded (some f) off n).length = n := by
      simp only [readPadded, List.length_append, List.length_replicate, Image.length_read]
      omega
    refine List.ext_getElem (by rw [hlen, List.length_map, List.length_range]) fun i hi _ => ?_
    rw [hlen] at hi
    rw [List.getElem_map, List.getElem_range]
    change _ = f.byteAt (off + i)
    rw [← Image.getD_read f hi, ← List.getD_eq_getElem _ 0, readPadded,
      List.getD_eq_getElem?_getD, List.getD_eq_getElem?_getD]
    by_cases hr : i < (f.read off n).length
    · rw [List.getElem?_append_left hr]
    · rw [List.getElem?_append_right (by omega), List.getElem?_eq_none (by omega : _ ≤ i),
        List.getElem?_replicate]
      split <;> rfl

theorem sdPerform_read (m : Machine) (hc : c.isRead) :
    (m.sdPerform c).mem.r8 =
        scatter (cphys m.mem.realmm) m.mem.r8 (byteAddr c.dma)
          (fun i => content m.dev.diskImg (c.lba.toNat * SDBLK + i))
          (if c.dma = 0 then 0 else min c.xfer.toNat BUFSIZE) ∧
      (m.sdPerform c).dev = m.dev := by
  have hperform : m.sdPerform c =
      if c.dma = 0 then m
      else m.dmaOut c.dma
        (readPadded m.dev.diskImg (c.lba.toNat * SDBLK) (min c.xfer.toNat BUFSIZE)) := by
    rcases hc with hc | hc
    all_goals
      unfold sdPerform
      rw [hc]
      rfl
  rw [hperform]
  split
  · exact ⟨rfl, rfl⟩
  · rw [readPadded_eq]
    exact ⟨Mem.load_scatter _ _ _ _, rfl⟩

theorem sdPerform_write (m : Machine) (hc : c.isWrite) :
    (m.sdPerform c).dev.diskImg =
        (if c.dma = 0 then m.dev.diskImg
        else m.dev.diskImg.map fun f => f.write (c.lba.toNat * SDBLK)
          ((List.range (min c.xfer.toNat BUFSIZE)).map fun i => m.mem.r8 (byteAddr c.dma i))) ∧
      (m.sdPerform c).mem = m.mem ∧ (m.sdPerform c).dev.rootImg = m.dev.rootImg := by
  cases hdisk : m.dev.diskImg with
  | none =>
    have hperform : m.sdPerform c = m := by
      rcases hc with hc | hc
      all_goals
        unfold sdPerform
        rw [hc, hdisk]
        rfl
    rw [hperform, Option.map_none, ite_self]
    exact ⟨hdisk, rfl, rfl⟩
  | some f =>
    have hperform : m.sdPerform c =
        if c.dma = 0 then m
        else
          { m with
            dev := { m.dev with
              diskImg := some (f.write (c.lba.toNat * SDBLK)
                (m.mem.bytes c.dma (min c.xfer.toNat BUFSIZE))) } } := by
      rcases hc with hc | hc
      all_goals
        unfold sdPerform
        rw [hc, hdisk]
        rfl
    rw [hperform]
    simp only [Option.map_some]
    split
    · exact ⟨hdisk, rfl, rfl⟩
    · rw [Mem.bytes_eq]
      exact ⟨rfl, rfl, rfl⟩

theorem sdRead_iff (hc : c.isRead) :
    (∀ f g, ReadDone (m.reimage f g).dev.diskImg (c.lba.toNat * SDBLK) c.xfer.toNat
        (byteAddr c.dma) (m.reimage f g) ((m.reimage f g).sdPerform c)) ↔ SdOk m c := by
  constructor
  · intro hdone
    by_cases hzero : c.xfer = 0
    · exact .inl hzero
    have hpos : 0 < c.xfer.toNat := by
      rcases Nat.eq_zero_or_pos c.xfer.toNat with h0 | hpos
      · exact absurd (BitVec.eq_of_toNat_eq h0) hzero
      · exact hpos
    have hopen : m.dev.diskImg ≠ none := by
      intro hnone
      exact (hdone ⟨0, fun _ => 0⟩ ⟨0, fun _ => 0⟩).source hpos (by rw [reimage, hnone]; rfl)
    have hback : ∀ val : Nat → U8, ReadBack (cphys m.mem.realmm) m.mem.r8
        (scatter (cphys m.mem.realmm) m.mem.r8 (byteAddr c.dma) val
          (if c.dma = 0 then 0 else min c.xfer.toNat BUFSIZE)) (byteAddr c.dma) val
        c.xfer.toNat := by
      intro val
      let f := Image.holding (c.lba.toNat * SDBLK) c.xfer.toNat val
      have hb := (hdone f f).back
      rw [(sdPerform_read (m.reimage f f) hc).1] at hb
      have hcontent : ∀ i < c.xfer.toNat,
          content (m.reimage f f).dev.diskImg (c.lba.toNat * SDBLK + i) = val i :=
        fun i hi => content_holding hopen (c.lba.toNat * SDBLK) val hi
      have hb' := readBack_congr hb hcontent
      rwa [scatter_congr fun i hi => hcontent i ?_] at hb'
      split at hi
      · exact absurd hi (Nat.not_lt_zero i)
      · exact lt_of_lt_of_le hi (Nat.min_le_left _ _)
    obtain ⟨hfull, -, hapart⟩ := placed_of_readBack (r8_respects m) hback
    by_cases hdma : c.dma = 0
    · rw [if_pos hdma] at hfull
      omega
    · rw [if_neg hdma] at hfull
      exact .inr ⟨hopen, hdma, by omega, fun _ => hapart⟩
  · intro hok f g
    obtain ⟨hr8, hdev⟩ := sdPerform_read (m.reimage f g) hc
    rcases hok with hzero | ⟨hopen, hdma, hle, hapart⟩
    · have hn : c.xfer.toNat = 0 := by rw [hzero]; rfl
      refine ⟨fun hpos => by omega, ⟨fun i hi => by omega, fun b _ => ?_⟩, by rw [hdev],
        by rw [hdev]⟩
      rw [hr8, hn, Nat.zero_min, ite_self]
      rfl
    · refine ⟨fun _ hnone => hopen (Option.map_eq_none_iff.1 hnone), ?_, by rw [hdev],
        by rw [hdev]⟩
      rw [hr8, if_neg hdma, Nat.min_eq_left hle]
      exact readBack_of_placed ⟨rfl, fun _ _ => rfl, hapart hc⟩ _

theorem sdWrite_iff (hc : c.isWrite) :
    (∀ f g, WriteDone (c.lba.toNat * SDBLK) c.xfer.toNat (byteAddr c.dma) (m.reimage f g)
        ((m.reimage f g).sdPerform c)) ↔ SdOk m c := by
  have hnotRead : ¬c.isRead := by
    rcases hc with hc | hc
    all_goals
      rintro (hr | hr)
      all_goals
        rw [hc] at hr
        exact absurd hr (by decide)
  constructor
  · intro hdone
    by_cases hzero : c.xfer = 0
    · exact .inl hzero
    have hpos : 0 < c.xfer.toNat := by
      rcases Nat.eq_zero_or_pos c.xfer.toNat with h0 | hpos
      · exact absurd (BitVec.eq_of_toNat_eq h0) hzero
      · exact hpos
    have hopen : m.dev.diskImg ≠ none := by
      intro hnone
      have hd := hdone ⟨0, fun _ => 0⟩ ⟨0, fun _ => 0⟩
      refine (hd.data 0 hpos).1 ?_
      rw [(sdPerform_write _ hc).1, show (m.reimage _ _).dev.diskImg = none by
        rw [reimage, hnone]; rfl, Option.map_none, ite_self]
    -- an image that holds none of the bytes
    let f := Image.holding (c.lba.toNat * SDBLK) c.xfer.toNat
      fun i => m.mem.r8 (byteAddr c.dma i) + 1
    have hd := hdone f f
    have hdisk := (sdPerform_write (m.reimage f f) hc).1
    obtain ⟨f₀, hf₀⟩ := Option.ne_none_iff_exists'.1 hopen
    rw [show (m.reimage f f).dev.diskImg = some f by rw [reimage, hf₀]; rfl] at hdisk
    have hne : ∀ d : U8, d + 1 ≠ d := by decide
    have hheld : ∀ i < c.xfer.toNat, content (some f) (c.lba.toNat * SDBLK + i) ≠
        m.mem.r8 (byteAddr c.dma i) := by
      intro i hi
      have hval := Image.holding_byteAt (c.lba.toNat * SDBLK)
        (fun i => m.mem.r8 (byteAddr c.dma i) + 1) hi
      exact fun heq => hne _ (hval.symm.trans heq)
    have hdma : c.dma ≠ 0 := by
      intro hdma
      rw [if_pos hdma] at hdisk
      have hbyte := (hd.data 0 hpos).2
      rw [hdisk] at hbyte
      exact hheld 0 hpos hbyte
    refine .inr ⟨hopen, hdma, ?_, fun hr => absurd hr hnotRead⟩
    by_contra hgt
    rw [if_neg hdma, Option.map_some] at hdisk
    have hlast : BUFSIZE < c.xfer.toNat := by omega
    have hbyte := (hd.data BUFSIZE hlast).2
    rw [hdisk] at hbyte
    have hrest := (content_written f (c.lba.toNat * SDBLK) (min c.xfer.toNat BUFSIZE)
      fun i => m.mem.r8 (byteAddr c.dma i)).2 (c.lba.toNat * SDBLK + BUFSIZE)
        (.inr (by omega))
    exact hheld BUFSIZE hlast (hrest.symm.trans hbyte)
  · intro hok f g
    obtain ⟨hdisk, hmem, hroot⟩ := sdPerform_write (m.reimage f g) hc
    have hr8 : ((m.reimage f g).sdPerform c).mem.r8 = (m.reimage f g).mem.r8 := by rw [hmem]
    rcases hok with hzero | ⟨hopen, hdma, hle, -⟩
    · have hn : c.xfer.toNat = 0 := by rw [hzero]; rfl
      refine ⟨fun i hi => by omega, fun x _ => ?_, hr8, hroot⟩
      rw [hdisk]
      split
      · rfl
      · rw [hn, Nat.zero_min]
        cases (m.reimage f g).dev.diskImg with
        | none => rfl
        | some f' =>
          exact (content_written f' (c.lba.toNat * SDBLK) 0 _).2 x (by omega)
    · obtain ⟨f₀, hf₀⟩ := Option.ne_none_iff_exists'.1 hopen
      have hg : (m.reimage f g).dev.diskImg = some g := by rw [reimage, hf₀]; rfl
      rw [if_neg hdma, hg, Option.map_some, Nat.min_eq_left hle] at hdisk
      obtain ⟨hin, hout⟩ := content_written g (c.lba.toNat * SDBLK) c.xfer.toNat
        fun i => m.mem.r8 (byteAddr c.dma i)
      refine ⟨fun i hi => ⟨?_, ?_⟩, fun x hx => ?_, hr8, hroot⟩
      · rw [hdisk]
        exact Option.some_ne_none _
      · rw [hdisk]
        exact hin i hi
      · rw [hdisk, hg]
        exact hout x hx

/-- A command is performed, whatever the disk holds, exactly when it is within
the buffer and away from address 0. -/
theorem sdDone_iff (hc : c.isRead ∨ c.isWrite) :
    (∀ f g, SdDone (m.reimage f g) ((m.reimage f g).sdPerform c) c) ↔ SdOk m c := by
  rcases hc with hc | hc
  · have hnot : ¬c.isWrite := by
      rcases hc with hc | hc
      all_goals
        rintro (hw | hw)
        all_goals
          rw [hc] at hw
          exact absurd hw (by decide)
    refine Iff.trans ⟨fun h f g => (h f g).1 hc, fun h f g => ⟨fun _ => h f g, ?_⟩⟩
      (sdRead_iff hc)
    exact fun hw => absurd hw hnot
  · have hnot : ¬c.isRead := by
      rcases hc with hc | hc
      all_goals
        rintro (hr | hr)
        all_goals
          rw [hc] at hr
          exact absurd hr (by decide)
    refine Iff.trans ⟨fun h f g => (h f g).2 hc, fun h f g => ⟨?_, fun _ => h f g⟩⟩
      (sdWrite_iff hc)
    exact fun hr => absurd hr hnot

/-! ## The intercepts -/

/-- The machine once the request of the buffer at `buf` has been read and its
data moved. -/
def transferred (m : Machine) (h : Host) (buf : U32) : Machine :=
  (m.readBuf buf).2.transfer h (m.readBuf buf).1

def markDone (m : Machine) (buf : U32) : Machine :=
  let (pa, m) := m.translate buf false
  m.setMem (m.mem.w32 pa (m.mem.r32 pa ||| 2))

/-- A buffer header that the strategy or the `getblk` wait accepts at `pc`. -/
def AtStrategy (m : Machine) (pc : U32) : Prop :=
  m.cfg.biowaitSync ∧ m.cfg.sysmode ∧
    (pc = SDSTRATEGY ∨ pc = TSLEEP_ENTRY ∧ m.rd 1 = GETBLK_WAIT) ∧ 0xC0000000 ≤ m.rd 2

/-- A buffer header that the wait accepts at `pc`. -/
def AtBiowait (m : Machine) (pc : U32) : Prop :=
  (m.cfg.biowaitSync ∧ m.cfg.sysmode ∧ pc = TSLEEP_ENTRY ∧ m.rd 1 = 0xC00740E8) ∧
    0xC0000000 ≤ m.rd 2

theorem readBuf_peeked (m : Machine) (buf : U32) : Peeked m (m.readBuf buf).2 := by
  unfold readBuf
  simp only [kread_eq]
  exact ((((translate_peeked _ _ _).trans (translate_peeked _ _ _)).trans
    (translate_peeked _ _ _)).trans (translate_peeked _ _ _)).trans (translate_peeked _ _ _)

def sdCommand (m : Machine) (cmd : U32) : SdCommand × Machine :=
  let (_, m) := m.kread (cmd + 0x44)
  let (dma, m) := m.kread (cmd + 0x10)
  let (cdbw, m) := m.kread (cmd + 0x70)
  let (xfer, m) := m.kread (cmd + 0x90)
  let op := cdbw >>> 24
  let (cdbw2, m) := m.kread (cmd + 0x74)
  let lba := if op = 0x08 ∨ op = 0x0A then cdbw &&& 0x1FFFFF
    else (cdbw <<< 16) ||| (cdbw2 >>> 16)
  (⟨op, lba, dma, xfer⟩, m)

theorem shaSdcomplete_target {m : Machine} {cmd : U32} (htarget : (m.kread (cmd + 0x44)).1 = 0) :
    m.shaSdcomplete cmd = (m.sdCommand cmd).2.sdPerform (m.sdCommand cmd).1 := by
  unfold shaSdcomplete sdCommand
  simp only [htarget, ne_eq, not_true_eq_false, if_false]

theorem sdCommand_peeked (m : Machine) (cmd : U32) : Peeked m (m.sdCommand cmd).2 := by
  unfold sdCommand
  simp only [kread_eq]
  exact ((((translate_peeked _ _ _).trans (translate_peeked _ _ _)).trans
    (translate_peeked _ _ _)).trans (translate_peeked _ _ _)).trans (translate_peeked _ _ _)

/-- Every request is reported complete: the strategy and the wait both after the
same transfer of the buffer, the SHA after its command.  The transfer has been
performed, whatever the images and the stack hold, exactly on the requests of
`BufOk`; the command, on those of `SdOk`. -/
theorem transfers_complete (m : Machine) (b : Buf) (phys : U32 → U32) (c : SdCommand)
    (hmap : m.Mapped b.addr b.bcount.toNat phys) (hc : c.isRead ∨ c.isWrite) :
    ((∀ f g h, BufDone (m.reimage f g) ((m.reimage f g).transfer h b) b phys) ↔
        BufOk m b phys) ∧
      ((∀ f g, SdDone (m.reimage f g) ((m.reimage f g).sdPerform c) c) ↔ SdOk m c) ∧
      (∀ k : Machine, ∀ h pc, k.AtStrategy pc → Peeked k (k.readBuf (k.rd 2)).2 ∧
        k.strategy h pc = .error (((k.transferred h (k.rd 2)).getblkWake pc).setPc BIODONE)) ∧
      (∀ k : Machine, ∀ h pc, k.AtBiowait pc →
        ∃ d, d = ((k.transferred h (k.rd 2)).markDone (k.rd 2)).releaseLock ∧
          k.biowait h pc = .error (d.returnZero (d.rd 1))) ∧
      ∀ k : Machine, ∀ cmd, (k.kread (cmd + 0x44)).1 = 0 → Peeked k (k.sdCommand cmd).2 ∧
        k.shaSdcomplete cmd = (k.sdCommand cmd).2.sdPerform (k.sdCommand cmd).1 := by
  refine ⟨bufDone_iff hmap, sdDone_iff hc, fun k h pc hk => ⟨readBuf_peeked k _, ?_⟩,
    fun k h pc hk => ⟨_, rfl, ?_⟩,
    fun k cmd hk => ⟨sdCommand_peeked k cmd, shaSdcomplete_target hk⟩⟩
  · unfold AtStrategy at hk
    unfold strategy
    rw [if_pos hk]
    rfl
  · unfold biowait
    rw [if_pos hk.1]
    simp only [if_pos hk.2]
    rfl

/-! ## Requests -/

/-- Kernel space as the linear map has it, with no device map and no offset. -/
structure Linear (m : Machine) : Prop where
  on : m.cfg.translateOn = true
  off : m.cfg.kdataOff = 0
  real : m.mem.realmm = true
  devmap : m.devmap = []

theorem Linear.moved {P : U32 → Prop} {m k : Machine} (h : m.Linear) (hk : Moved P m k) :
    k.Linear := by
  induction hk with
  | refl => exact h
  | translate va _ ih =>
    obtain ⟨t, u, s, heq⟩ := translate_peeked _ va false
    rw [heq]
    exact ⟨ih.on, ih.off, ih.real, ih.devmap⟩
  | store mem hreal _ _ ih => exact ⟨ih.on, ih.off, hreal.trans ih.real, ih.devmap⟩
  | device d _ ih => exact ⟨ih.on, ih.off, ih.real, ih.devmap⟩

theorem Linear.translate_eq {m : Machine} (h : m.Linear) {va : U32} (hlo : 0xC0000000 ≤ va)
    (hhi : va < 0xE0000000) : m.translate va false = (va - KOFF, m) := by
  have hnot : ¬ 0xE0000000 ≤ va := BitVec.not_le.2 hhi
  unfold translate translateKernel
  rw [if_neg (by simp [h.on]), if_pos ⟨h.real, hlo⟩, if_neg (fun hu => hu.2.1 h.off),
    if_neg hnot, h.devmap]
  simp only [devmapLookup, List.find?_nil, h.off, ne_eq, not_true_eq_false, if_false]

theorem Linear.mapped {m : Machine} (h : m.Linear) {addr : U32} {n : Nat}
    (hrange : ∀ i < n, 0xC0000000 ≤ byteAddr addr i ∧ byteAddr addr i < 0xE0000000) :
    m.Mapped addr n (· - KOFF) := by
  intro k hk i hi
  rw [(h.moved hk).translate_eq (hrange i hi).1 (hrange i hi).2]

def requestMem (flags bcount : U32) : Mem :=
  ((((Mem.blank true).w32 0x00100000 flags).w32 0x00100014 bcount).w32 0x0010003C
    0xC0200000).w32 0x00100050 0xC0300000

def requesting (flags bcount : U32) : Machine :=
  { Machine.fresh with
    cfg := { Config.process 0 with biowaitSync := true }
    mem := requestMem flags bcount
    cpu := Cpu.blank.wr 2 0xC0100000
    dev := { Devices.initial with
      rootDevVp := 0xC0400000
      diskImg := some ⟨1024, fun _ => 0xAA⟩ } }

def requestBuf (flags bcount : U32) : Buf := ⟨flags, bcount, 0xC0200000, 0, 0xC0300000⟩

theorem requestMem_realmm (flags bcount : U32) : (requestMem flags bcount).realmm = true := by
  unfold requestMem
  rw [Mem.w32_realmm, Mem.w32_realmm, Mem.w32_realmm, Mem.w32_realmm]
  rfl

theorem requesting_linear (flags bcount : U32) : (requesting flags bcount).Linear where
  on := rfl
  off := rfl
  real := requestMem_realmm flags bcount
  devmap := rfl

theorem kread_requesting (flags bcount : U32) {va : U32} (hlo : 0xC0000000 ≤ va)
    (hhi : va < 0xE0000000) :
    (requesting flags bcount).kread va =
      ((requestMem flags bcount).r32 (va - KOFF), requesting flags bcount) := by
  rw [kread, (requesting_linear flags bcount).translate_eq hlo hhi]
  rfl

theorem readBuf_requesting {flags bcount : U32}
    (hwords : [(requestMem flags bcount).r32 0x00100000, (requestMem flags bcount).r32 0x00100014,
        (requestMem flags bcount).r32 0x0010003C, (requestMem flags bcount).r32 0x00100040,
        (requestMem flags bcount).r32 0x00100050] = [flags, bcount, 0xC0200000, 0, 0xC0300000]) :
    (requesting flags bcount).readBuf 0xC0100000 =
      (requestBuf flags bcount, requesting flags bcount) := by
  simp only [List.cons.injEq, and_true] at hwords
  obtain ⟨hflags, hbcount, haddr, hblkno, hvp⟩ := hwords
  unfold readBuf
  rw [kread_requesting _ _ (by decide) (by decide)]
  simp only
  rw [kread_requesting _ _ (by decide) (by decide)]
  simp only
  rw [kread_requesting _ _ (by decide) (by decide)]
  simp only
  rw [kread_requesting _ _ (by decide) (by decide)]
  simp only
  rw [kread_requesting _ _ (by decide) (by decide)]
  refine Prod.ext ?_ rfl
  unfold requestBuf
  exact Buf.mk.injEq .. ▸ ⟨hflags, hbcount, haddr, hblkno, hvp⟩

theorem transfers_complete_requesting :
    (∀ f g h, BufDone ((requesting 1 8).reimage f g)
        (((requesting 1 8).reimage f g).transfer h (requestBuf 1 8)) (requestBuf 1 8)
        (· - KOFF)) ∧
      ∀ f g, SdDone ((requesting 1 8).reimage f g)
        (((requesting 1 8).reimage f g).sdPerform ⟨0x0A, 0, 0x200000, 8⟩)
        ⟨0x0A, 0, 0x200000, 8⟩ := by
  have hall := transfers_complete (requesting 1 8) (requestBuf 1 8) (· - KOFF)
    ⟨0x0A, 0, 0x200000, 8⟩ ((requesting_linear 1 8).mapped (by decide)) (.inr (.inl rfl))
  refine ⟨hall.1.2 (.inr ?_), hall.2.1.2 (.inr ⟨Option.some_ne_none _, by decide, by decide,
    fun hr => absurd hr (by rintro (h | h) <;> exact absurd h (by decide))⟩)⟩
  have hread : isRead (requestBuf 1 8) := by decide
  rw [if_pos hread]
  have hreal := (requesting_linear 1 8).real
  refine ⟨⟨Option.some_ne_none _, by decide, by decide⟩, ⟨rfl, ?_, ?_⟩⟩
  · rw [hreal]
    decide +kernel
  · rw [hreal]
    decide +kernel

/-- Two bytes read store two more, from the stack; a write of more than the
transfer buffer holds is reported complete and leaves the disk as it was. -/
theorem transfers_incomplete :
    ((requesting 1 2).AtStrategy SDSTRATEGY ∧
        (requesting 1 2).readBuf 0xC0100000 = (requestBuf 1 2, requesting 1 2) ∧
        ¬ BufDone (requesting 1 2)
          ((requesting 1 2).transfer { Host.blank with tmp := fun _ => 0x55 } (requestBuf 1 2))
          (requestBuf 1 2) (· - KOFF)) ∧
      (requesting 0 0x10004).AtStrategy SDSTRATEGY ∧
        (requesting 0 0x10004).readBuf 0xC0100000 = (requestBuf 0 0x10004, requesting 0 0x10004) ∧
        ¬ BufDone (requesting 0 0x10004)
          ((requesting 0 0x10004).transfer Host.blank (requestBuf 0 0x10004))
          (requestBuf 0 0x10004) (· - KOFF) := by
  refine ⟨⟨?_, readBuf_requesting (by decide +kernel), fun hdone => ?_⟩, ?_,
    readBuf_requesting (by decide +kernel), fun hdone => ?_⟩
  · exact ⟨rfl, rfl, .inl rfl, by decide⟩
  · have hread : isRead (requestBuf 1 2) := by decide
    rw [BufDone, if_pos hread] at hdone
    have hkeep := hdone.back.other 0x00200002 (by
      rw [(requesting_linear 1 2).real]
      decide +kernel)
    exact absurd hkeep (by decide +kernel)
  · exact ⟨rfl, rfl, .inl rfl, by decide⟩
  · have hwrite : ¬isRead (requestBuf 0 0x10004) := by decide
    have hroot : ¬(requesting 0 0x10004).isRoot (requestBuf 0 0x10004) = true := by decide
    rw [BufDone, if_neg hwrite, if_neg hroot] at hdone
    exact absurd (hdone.data 0 (by decide)).2 (by decide +kernel)

end Machine

end Nx88
