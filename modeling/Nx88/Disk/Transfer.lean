import Nx88.Disk.Stores
/-!
# Disk transfers

When a transfer that is reported complete has been performed: the buffers of
the strategy and of the wait, and the commands of the SHA.
-/

namespace Nx88

open Lib.Words Lib.Scatter

/-! ## Images -/

namespace Image

def byteAt (f : Image) (x : Nat) : U8 := if x < f.size then f.byte x else 0

theorem getD_read (f : Image) {off n i : Nat} (hi : i < n) :
    (f.read off n).getD i 0 = f.byteAt (off + i) := by
  unfold byteAt
  by_cases h : i < min n (f.size - off)
  · rw [List.getD_eq_getElem?_getD, getElem?_read f off n i h, if_pos (by omega)]
    rfl
  · rw [if_neg (by omega), List.getD_eq_default _ _ (by rw [length_read]; omega)]

theorem write_byteAt (f : Image) (off : Nat) (bs : List U8) (x : Nat) :
    (f.write off bs).byteAt x =
      if off ≤ x ∧ x < off + bs.length then bs.getD (x - off) 0 else f.byteAt x := by
  have hsize : (f.write off bs).size = if bs = [] then f.size else max f.size (off + bs.length) :=
    rfl
  have hbyte : (f.write off bs).byte x =
      if off ≤ x ∧ x < off + bs.length then bs.getD (x - off) 0
      else if x < f.size then f.byte x else 0 := rfl
  rw [byteAt, byteAt, hbyte]
  by_cases hin : off ≤ x ∧ x < off + bs.length
  · have hne : bs ≠ [] := by
      rintro rfl
      rw [List.length_nil] at hin
      omega
    rw [if_pos hin, if_pos]
    rw [hsize, if_neg hne]
    exact lt_of_lt_of_le hin.2 (le_max_right _ _)
  · rw [if_neg hin]
    by_cases hx : x < f.size
    · rw [if_pos hx, if_pos]
      rw [hsize]
      split
      · exact hx
      · exact lt_of_lt_of_le hx (le_max_left _ _)
    · rw [if_neg hx]
      exact ite_self _

def holding (off n : Nat) (val : Nat → U8) : Image := ⟨off + n, fun x => val (x - off)⟩

theorem holding_byteAt {n i : Nat} (off : Nat) (val : Nat → U8) (hi : i < n) :
    (holding off n val).byteAt (off + i) = val i := by
  rw [byteAt, holding]
  dsimp only
  rw [if_pos (by omega), Nat.add_sub_cancel_left]

end Image

namespace Machine

/-! ## A transfer performed -/

def content (img : Option Image) (x : Nat) : U8 :=
  match img with
  | some f => f.byteAt x
  | none => 0

/-- `n` bytes read from the image at `off` to the places `dest`, and nothing else
touched. -/
structure ReadDone (img : Option Image) (off n : Nat) (dest : Nat → U32) (m m' : Machine) :
    Prop where
  source : 0 < n → img ≠ none
  back : ReadBack (cphys m.mem.realmm) m.mem.r8 m'.mem.r8 dest (fun i => content img (off + i)) n
  root : m'.dev.rootImg = m.dev.rootImg
  disk : m'.dev.diskImg = m.dev.diskImg

/-- `n` bytes written from the places `src` to the disk at `off`, and nothing
else touched. -/
structure WriteDone (off n : Nat) (src : Nat → U32) (m m' : Machine) : Prop where
  data : ∀ i < n, m'.dev.diskImg ≠ none ∧ content m'.dev.diskImg (off + i) = m.mem.r8 (src i)
  rest : ∀ x, (x < off ∨ off + n ≤ x) → content m'.dev.diskImg x = content m.dev.diskImg x
  memory : m'.mem.r8 = m.mem.r8
  root : m'.dev.rootImg = m.dev.rootImg

/-- Nothing touched. -/
structure LeftAlone (m m' : Machine) : Prop where
  memory : m'.mem.r8 = m.mem.r8
  root : m'.dev.rootImg = m.dev.rootImg
  disk : m'.dev.diskImg = m.dev.diskImg

/-- The machine with other contents of the images that are open. -/
def reimage (m : Machine) (f g : Image) : Machine :=
  { m with
    dev := { m.dev with
      rootImg := m.dev.rootImg.map fun _ => f, diskImg := m.dev.diskImg.map fun _ => g } }

/-! ## Buffers -/

def isRead (b : Buf) : Prop := b.flags &&& 1 ≠ 0

instance (b : Buf) : Decidable (isRead b) := by unfold isRead; infer_instance

/-- The buffer belongs to the root device, which is the first one seen. -/
def isRoot (m : Machine) (b : Buf) : Bool := b.vp == (m.noteRoot b.vp).dev.rootDevVp

def device (m : Machine) (b : Buf) : Option Image :=
  if m.isRoot b then m.dev.rootImg else m.dev.diskImg

/-- What completing the request of `b` stands for.  A write to the root device
is dropped: its image is read-only. -/
def BufDone (m m' : Machine) (b : Buf) (phys : U32 → U32) : Prop :=
  if isRead b then
    ReadDone (m.device b) (b.blkno.toNat * 512) b.bcount.toNat (bytePlace phys b.addr) m m'
  else if m.isRoot b then LeftAlone m m'
  else WriteDone (b.blkno.toNat * 512) b.bcount.toNat (bytePlace phys b.addr) m m'

/-- The bounds of the transfer code. -/
def Taken (m : Machine) (b : Buf) : Prop :=
  m.device b ≠ none ∧ 0xC0000000 ≤ b.addr ∧ b.bcount.toNat ≤ 0x10000

/-- Where the request is performed.  A read: whole words, each in the place of
its bytes, no two bytes in one place.  A write: each word taken from where its
bytes are. -/
def BufOk (m : Machine) (b : Buf) (phys : U32 → U32) : Prop :=
  b.bcount = 0 ∨
    if isRead b then
      m.Taken b ∧
        Placed (cphys m.mem.realmm) (wordPlace phys b.addr) (bytePlace phys b.addr)
          (4 * wordsOf b.bcount.toNat) b.bcount.toNat
    else
      m.isRoot b = true ∨
        m.Taken b ∧ ∀ i < b.bcount.toNat,
          m.mem.r8 (wordPlace phys b.addr i) = m.mem.r8 (bytePlace phys b.addr i)

variable {m : Machine} {b : Buf} {phys : U32 → U32}

theorem r8_respects (m : Machine) (a c : U32)
    (h : cphys m.mem.realmm a = cphys m.mem.realmm c) : m.mem.r8 a = m.mem.r8 c := by
  obtain ⟨hpage, hoff⟩ := (cphys_eq_iff m.mem.realmm a c).1 h
  rw [Mem.r8, Mem.r8, Mem.pageOf, Mem.pageOf, hpage, hoff]

/-- Noting the root device leaves memory, images and mapping alone. -/
structure Noted (m k : Machine) : Prop where
  mem : k.mem = m.mem
  root : k.dev.rootImg = m.dev.rootImg
  disk : k.dev.diskImg = m.dev.diskImg
  mapped : ∀ {addr : U32} {n : Nat} {phys : U32 → U32},
    m.Mapped addr n phys → k.Mapped addr n phys

theorem noteRoot_noted (m : Machine) (vp : U32) : Noted m (m.noteRoot vp) := by
  unfold noteRoot
  split
  · exact ⟨rfl, rfl, rfl, fun hmap => hmap.moved rfl (.device _ .refl)⟩
  · exact ⟨rfl, rfl, rfl, id⟩

theorem transfer_of_none (h : Host) (hdev : m.device b = none) :
    m.transfer h b = m.noteRoot b.vp := by
  have hnoted := noteRoot_noted m b.vp
  unfold device isRoot at hdev
  unfold transfer
  simp only [hnoted.root, hnoted.disk, hdev]

theorem transfer_of_some {f : Image} (h : Host) (hdev : m.device b = some f) :
    m.transfer h b = (m.noteRoot b.vp).transferFile h b (m.isRoot b) f := by
  have hnoted := noteRoot_noted m b.vp
  unfold device isRoot at hdev
  unfold transfer
  simp only [hnoted.root, hnoted.disk, hdev]
  rfl

theorem taken_iff {f : Image} (hdev : m.device b = some f) :
    m.Taken b ↔ 0xC0000000 ≤ b.addr ∧ b.bcount.toNat ≤ 0x10000 := by
  unfold Taken
  rw [hdev]
  simp

instance (m : Machine) (b : Buf) : Decidable (m.Taken b) := by
  unfold Taken
  have : Decidable (m.device b ≠ none) :=
    match m.device b with
    | none => .isFalse fun h => h rfl
    | some f => .isTrue fun h => nomatch h
  infer_instance

theorem transferFile_skip {k : Machine} {h : Host} {root : Bool} {f : Image}
    (hskip : ¬(0xC0000000 ≤ b.addr ∧ b.bcount.toNat ≤ 0x10000) ∨ b.bcount = 0) :
    k.transferFile h b root f = k := by
  unfold transferFile
  rw [if_neg]
  rintro ⟨haddr, hne, hle⟩
  rcases hskip with hskip | hzero
  · exact hskip ⟨haddr, hle⟩
  · exact hne hzero

theorem transferFile_read {k : Machine} {h : Host} {root : Bool} {f : Image}
    (ht : 0xC0000000 ≤ b.addr ∧ b.bcount.toNat ≤ 0x10000) (hne : b.bcount ≠ 0)
    (hread : isRead b) :
    k.transferFile h b root f =
      k.storeWords b.addr (transferBuf h f (b.blkno.toNat * 512) b.bcount.toNat) 0
        (wordsOf b.bcount.toNat) := by
  have hflag : b.flags &&& 1 ≠ 0 := hread
  unfold transferFile
  rw [if_pos ⟨ht.1, hne, ht.2⟩]
  simp only [if_pos hflag]
  rfl

theorem transferFile_root {k : Machine} {h : Host} {f : Image} (hwrite : ¬isRead b) :
    k.transferFile h b true f = k := by
  have hflag : ¬b.flags &&& 1 ≠ 0 := hwrite
  unfold transferFile
  simp only [if_neg hflag, if_true, ite_self]

theorem transferFile_write {k : Machine} {h : Host} {f : Image}
    (ht : 0xC0000000 ≤ b.addr ∧ b.bcount.toNat ≤ 0x10000) (hne : b.bcount ≠ 0)
    (hwrite : ¬isRead b) :
    (k.transferFile h b false f).dev.diskImg =
        some (f.write (b.blkno.toNat * 512)
          ((k.loadWords b.addr 0 (wordsOf b.bcount.toNat)).1.take b.bcount.toNat)) ∧
      (k.transferFile h b false f).mem = (k.loadWords b.addr 0 (wordsOf b.bcount.toNat)).2.mem ∧
      (k.transferFile h b false f).dev.rootImg =
        (k.loadWords b.addr 0 (wordsOf b.bcount.toNat)).2.dev.rootImg := by
  have hflag : ¬b.flags &&& 1 ≠ 0 := hwrite
  unfold transferFile
  rw [if_pos ⟨ht.1, hne, ht.2⟩]
  simp only [if_neg hflag, if_neg Bool.false_ne_true]
  exact ⟨rfl, rfl, rfl⟩

theorem transfer_read (h : Host) (hread : isRead b)
    (hmap : m.Mapped b.addr b.bcount.toNat phys) :
    (m.transfer h b).mem.r8 =
        scatter (cphys m.mem.realmm) m.mem.r8 (wordPlace phys b.addr)
          (fun i => if i < b.bcount.toNat then content (m.device b) (b.blkno.toNat * 512 + i)
            else h.tmp i)
          (if m.Taken b then 4 * wordsOf b.bcount.toNat else 0) ∧
      (m.transfer h b).dev.rootImg = m.dev.rootImg ∧
      (m.transfer h b).dev.diskImg = m.dev.diskImg := by
  have hnoted := noteRoot_noted m b.vp
  cases hdev : m.device b with
  | none =>
    have hnot : ¬m.Taken b := fun ht => ht.1 hdev
    rw [if_neg hnot, transfer_of_none h hdev, hnoted.mem]
    exact ⟨rfl, hnoted.root, hnoted.disk⟩
  | some f =>
    rw [transfer_of_some h hdev]
    by_cases ht : 0xC0000000 ≤ b.addr ∧ b.bcount.toNat ≤ 0x10000
    · rw [if_pos ((taken_iff hdev).2 ht)]
      by_cases hzero : b.bcount = 0
      · rw [transferFile_skip (.inr hzero), hzero, hnoted.mem]
        exact ⟨rfl, hnoted.root, hnoted.disk⟩
      · rw [transferFile_read ht hzero hread]
        obtain ⟨-, hd, hrealm, hr8⟩ := storeWords_spec (hnoted.mapped hmap)
          (transferBuf h f (b.blkno.toNat * 512) b.bcount.toNat)
          (le_refl (wordsOf b.bcount.toNat))
        rw [hnoted.mem] at hr8
        refine ⟨hr8.trans (scatter_congr fun i _ => ?_), ?_, ?_⟩
        · unfold transferBuf
          split
          · rename_i hi
            exact Image.getD_read f hi
          · rfl
        · exact (congrArg Devices.rootImg hd).trans hnoted.root
        · exact (congrArg Devices.diskImg hd).trans hnoted.disk
    · rw [if_neg (fun h => ht ((taken_iff hdev).1 h)), transferFile_skip (.inl ht), hnoted.mem]
      exact ⟨rfl, hnoted.root, hnoted.disk⟩

theorem transfer_write (h : Host) (hwrite : ¬isRead b) (hroot : m.isRoot b = false)
    (hmap : m.Mapped b.addr b.bcount.toNat phys) :
    (m.transfer h b).dev.diskImg =
        (if m.Taken b ∧ b.bcount ≠ 0 then
          m.dev.diskImg.map fun f => f.write (b.blkno.toNat * 512)
            ((List.range b.bcount.toNat).map fun i => m.mem.r8 (wordPlace phys b.addr i))
        else m.dev.diskImg) ∧
      (m.transfer h b).mem.r8 = m.mem.r8 ∧
      (m.transfer h b).dev.rootImg = m.dev.rootImg := by
  have hnoted := noteRoot_noted m b.vp
  have hdisk : m.device b = m.dev.diskImg := by rw [device, hroot]; rfl
  cases hdev : m.device b with
  | none =>
    have hnot : ¬(m.Taken b ∧ b.bcount ≠ 0) := fun ht => ht.1.1 hdev
    rw [if_neg hnot, transfer_of_none h hdev, hnoted.mem]
    exact ⟨hnoted.disk, rfl, hnoted.root⟩
  | some f =>
    rw [transfer_of_some h hdev]
    by_cases ht : (0xC0000000 ≤ b.addr ∧ b.bcount.toNat ≤ 0x10000) ∧ b.bcount ≠ 0
    · rw [if_pos ⟨(taken_iff hdev).2 ht.1, ht.2⟩]
      obtain ⟨hdone, hmem', hroot'⟩ := transferFile_write (k := m.noteRoot b.vp) (h := h)
        (f := f) ht.1 ht.2 hwrite
      rw [hroot, hdone, hmem', hroot']
      obtain ⟨hbytes, hmem, hd⟩ := loadWords_spec (hnoted.mapped hmap) (k := 0)
        (j := wordsOf b.bcount.toNat) (by omega) .refl rfl
      rw [hnoted.mem] at hbytes hmem
      have htake : (List.map (fun i => m.mem.r8 (wordPlace phys b.addr (4 * 0 + i)))
          (List.range (4 * wordsOf b.bcount.toNat))).take b.bcount.toNat =
            (List.range b.bcount.toNat).map fun i => m.mem.r8 (wordPlace phys b.addr i) := by
        rw [← List.map_take, List.take_range, Nat.min_eq_left (by unfold wordsOf; omega)]
        simp only [Nat.mul_zero, Nat.zero_add]
      refine ⟨?_, congrArg Mem.r8 hmem, (congrArg Devices.rootImg hd).trans hnoted.root⟩
      rw [← hdisk, hdev]
      rw [hbytes, htake]
      rfl
    · rw [if_neg (fun h => ht ⟨(taken_iff hdev).1 h.1, h.2⟩)]
      have hskip : ¬(0xC0000000 ≤ b.addr ∧ b.bcount.toNat ≤ 0x10000) ∨ b.bcount = 0 := by
        by_cases hzero : b.bcount = 0
        · exact .inr hzero
        · exact .inl fun h => ht ⟨h, hzero⟩
      rw [transferFile_skip hskip, hnoted.mem]
      exact ⟨hnoted.disk, rfl, hnoted.root⟩

theorem transfer_root (h : Host) (hwrite : ¬isRead b) (hroot : m.isRoot b = true) :
    LeftAlone m (m.transfer h b) := by
  have hnoted := noteRoot_noted m b.vp
  have hdone : LeftAlone m (m.noteRoot b.vp) :=
    ⟨congrArg Mem.r8 hnoted.mem, hnoted.root, hnoted.disk⟩
  cases hdev : m.device b with
  | none =>
    rw [transfer_of_none h hdev]
    exact hdone
  | some f =>
    rw [transfer_of_some h hdev, hroot, transferFile_root hwrite]
    exact hdone

end Machine

end Nx88
