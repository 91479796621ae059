import Nx88.Machine
import Nx88.Lib.Words
/-!
# Physical memory accessors

`cphys`, `page_of` and the byte, halfword and word accessors of `nx88.h`, and
the facts about them that the rest of the development uses: a word is the
big-endian spelling of four bytes, and a write changes only the bytes whose
folded address it names.
-/

namespace Nx88

open Lib.Words

/-- Fold interleaved and vv-window physical addresses onto the single node's RAM. -/
def cphys (realmm : Bool) (a : U32) : U32 :=
  if realmm ∧ 0x80000000 ≤ a ∧ a < 0xC0000000 then a &&& 0x7FFFFFFF
  else if VV_WINDOW ≤ a ∧ a < VV_WINDOW + 64 * VV_STRIDE then
    let off := (a - VV_WINDOW) % VV_STRIDE
    let tpl := if realmm then VV_TEMPLATE - 0xC0000000 else VV_TEMPLATE
    tpl + off
  else a

namespace Mem

def pageOf (m : Mem) (a : U32) : U32 → U8 := m.pages (cphys m.realmm a >>> 12)

def r8 (m : Mem) (a : U32) : U8 := m.pageOf a (a &&& 4095)

/-- Store one byte into the page `page_of(a)` at offset `o`. -/
def poke (m : Mem) (a o : U32) (v : U8) : Mem :=
  { m with
    pages := Function.update m.pages (cphys m.realmm a >>> 12)
      (Function.update (m.pageOf a) o v) }

def w8 (m : Mem) (a : U32) (v : U8) : Mem := m.poke a (a &&& 4095) v

/-- The in-page case reads through one page pointer, the other byte by byte. -/
def r32 (m : Mem) (a : U32) : U32 :=
  if (a &&& 4095) ≤ 4092 then
    let p := m.pageOf a
    let o := a &&& 4095
    be32 (p o) (p (o + 1)) (p (o + 2)) (p (o + 3))
  else be32 (m.r8 a) (m.r8 (a + 1)) (m.r8 (a + 2)) (m.r8 (a + 3))

def w32 (m : Mem) (a v : U32) : Mem :=
  if (a &&& 4095) ≤ 4092 then
    let o := a &&& 4095
    (((m.poke a o (byteOf v 0)).poke a (o + 1) (byteOf v 1)).poke a (o + 2)
      (byteOf v 2)).poke a (o + 3) (byteOf v 3)
  else
    (((m.w8 a (byteOf v 0)).w8 (a + 1) (byteOf v 1)).w8 (a + 2) (byteOf v 2)).w8 (a + 3)
      (byteOf v 3)

def r16 (m : Mem) (a : U32) : U16 :=
  ((m.r8 a).setWidth 16 <<< 8) ||| (m.r8 (a + 1)).setWidth 16

def w16 (m : Mem) (a : U32) (v : U16) : Mem :=
  (m.w8 a ((v >>> 8).setWidth 8)).w8 (a + 1) (v.setWidth 8)

def load (m : Mem) (a : U32) : List U8 → Mem
  | [] => m
  | b :: bs => (m.w8 a b).load (a + 1) bs

/-- The loop `for (i = 0; i < n; i++) buf[i] = mem_r8(a + i)`. -/
def bytes (m : Mem) (a : U32) : Nat → List U8
  | 0 => []
  | n + 1 => m.r8 a :: m.bytes (a + 1) n

end Mem

/-! ## Folding keeps the offset in the page -/

theorem toNat_and_4095 (a : U32) : (a &&& 4095).toNat = a.toNat % 4096 :=
  toNat_offsetOf a

theorem toNat_cphys (realmm : Bool) (a : U32) :
    (cphys realmm a).toNat =
      if realmm ∧ 0x80000000 ≤ a.toNat ∧ a.toNat < 0xC0000000 then a.toNat % 2 ^ 31
      else if 0xF9000000 ≤ a.toNat ∧ a.toNat < 0xF9080000 then
        (if realmm then 0x14000 else 0xC0014000) + (a.toNat - 0xF9000000) % 0x2000
      else a.toNat := by
  have hlt := a.isLt
  have hand : a.toNat &&& 2147483647 = a.toNat % 2 ^ 31 :=
    Nat.and_two_pow_sub_one_eq_mod a.toNat 31
  unfold cphys
  simp only [VV_WINDOW, VV_STRIDE, VV_TEMPLATE, BitVec.le_def, BitVec.lt_def]
  cases realmm <;> simp <;> split_ifs <;> simp [hand] <;> omega

theorem cphys_mod (realmm : Bool) (a : U32) :
    (cphys realmm a).toNat % 4096 = a.toNat % 4096 := by
  rw [toNat_cphys]
  split_ifs <;> omega

/-! ## Reading -/

theorem offset_add {a : U32} (h : (a &&& 4095) ≤ 4092) {k : U32} (hk : k.toNat ≤ 3) :
    (a + k) &&& 4095 = (a &&& 4095) + k := by
  rw [BitVec.le_def, toNat_and_4095] at h
  simp at h
  apply BitVec.eq_of_toNat_eq
  rw [toNat_and_4095, BitVec.toNat_add, BitVec.toNat_add, toNat_and_4095]
  omega

theorem cphys_page_add (realmm : Bool) {a : U32} (h : (a &&& 4095) ≤ 4092) {k : U32}
    (hk : k.toNat ≤ 3) : cphys realmm (a + k) >>> 12 = cphys realmm a >>> 12 := by
  rw [BitVec.le_def, toNat_and_4095] at h
  simp at h
  have hlt := a.isLt
  have hadd : (a + k).toNat = a.toNat + k.toNat := by
    rw [BitVec.toNat_add]
    omega
  apply BitVec.eq_of_toNat_eq
  rw [toNat_shift12, toNat_shift12, toNat_cphys, toNat_cphys, hadd]
  cases realmm <;> simp <;> split_ifs <;> omega

/-- The in-page fast path and the byte-wise path read the same word. -/
theorem Mem.r32_eq (m : Mem) (a : U32) :
    m.r32 a = be32 (m.r8 a) (m.r8 (a + 1)) (m.r8 (a + 2)) (m.r8 (a + 3)) := by
  unfold Mem.r32
  split
  · rename_i h
    simp only [Mem.r8, Mem.pageOf, cphys_page_add m.realmm h (k := 1) (by decide),
      cphys_page_add m.realmm h (k := 2) (by decide),
      cphys_page_add m.realmm h (k := 3) (by decide), offset_add h (k := 1) (by decide),
      offset_add h (k := 2) (by decide), offset_add h (k := 3) (by decide)]
  · rfl

/-- The in-page fast path and the byte-wise path write the same bytes. -/
theorem Mem.w32_eq (m : Mem) (a v : U32) :
    m.w32 a v =
      (((m.w8 a (byteOf v 0)).w8 (a + 1) (byteOf v 1)).w8 (a + 2) (byteOf v 2)).w8 (a + 3)
        (byteOf v 3) := by
  unfold Mem.w32
  split
  · rename_i h
    simp only [Mem.w8, Mem.poke, Mem.pageOf, cphys_page_add m.realmm h (k := 1) (by decide),
      cphys_page_add m.realmm h (k := 2) (by decide),
      cphys_page_add m.realmm h (k := 3) (by decide), offset_add h (k := 1) (by decide),
      offset_add h (k := 2) (by decide), offset_add h (k := 3) (by decide)]
  · rfl

/-! ## Writing -/

@[simp] theorem Mem.w8_realmm (m : Mem) (a : U32) (v : U8) : (m.w8 a v).realmm = m.realmm := rfl

@[simp] theorem Mem.w16_realmm (m : Mem) (a : U32) (v : U16) :
    (m.w16 a v).realmm = m.realmm := rfl

@[simp] theorem Mem.w32_realmm (m : Mem) (a v : U32) : (m.w32 a v).realmm = m.realmm := by
  rw [Mem.w32_eq]
  rfl

theorem cphys_eq_iff (realmm : Bool) (a b : U32) :
    cphys realmm a = cphys realmm b ↔
      cphys realmm a >>> 12 = cphys realmm b >>> 12 ∧ a &&& 4095 = b &&& 4095 := by
  have ha := cphys_mod realmm a
  have hb := cphys_mod realmm b
  simp only [← BitVec.toNat_inj, toNat_shift12, toNat_and_4095]
  omega

/-- A byte write changes exactly the addresses that fold onto the written one. -/
theorem Mem.r8_w8 (m : Mem) (a b : U32) (v : U8) :
    (m.w8 a v).r8 b = if cphys m.realmm b = cphys m.realmm a then v else m.r8 b := by
  by_cases hpage : cphys m.realmm b >>> 12 = cphys m.realmm a >>> 12
  · by_cases hoff : b &&& 4095 = a &&& 4095
    · rw [if_pos ((cphys_eq_iff m.realmm b a).2 ⟨hpage, hoff⟩)]
      simp only [Mem.r8, Mem.w8, Mem.poke, Mem.pageOf, hpage, hoff, Function.update_self]
    · rw [if_neg (fun h => hoff ((cphys_eq_iff m.realmm b a).1 h).2)]
      simp only [Mem.r8, Mem.w8, Mem.poke, Mem.pageOf, hpage, Function.update_self,
        Function.update_of_ne hoff]
  · rw [if_neg (fun h => hpage ((cphys_eq_iff m.realmm b a).1 h).1)]
    simp only [Mem.r8, Mem.w8, Mem.poke, Mem.pageOf, Function.update_of_ne hpage]

@[simp] theorem Mem.r8_w8_self (m : Mem) (a : U32) (v : U8) : (m.w8 a v).r8 a = v := by
  rw [Mem.r8_w8, if_pos rfl]

theorem Mem.r8_w8_of_ne {m : Mem} {a b : U32} {v : U8}
    (h : cphys m.realmm b ≠ cphys m.realmm a) : (m.w8 a v).r8 b = m.r8 b := by
  rw [Mem.r8_w8, if_neg h]

/-! ## Words -/

theorem cphys_ne_of_mod (realmm : Bool) {a b : U32}
    (h : a.toNat % 4096 ≠ b.toNat % 4096) : cphys realmm a ≠ cphys realmm b := by
  intro heq
  have ha := cphys_mod realmm a
  have hb := cphys_mod realmm b
  rw [heq] at ha
  omega

theorem cphys_add_ne (realmm : Bool) (a : U32) {i j : U32} (hi : i.toNat ≤ 3)
    (hj : j.toNat ≤ 3) (hne : i.toNat ≠ j.toNat) :
    cphys realmm (a + i) ≠ cphys realmm (a + j) := by
  have hlt := a.isLt
  apply cphys_ne_of_mod
  rw [BitVec.toNat_add, BitVec.toNat_add]
  omega

/-- Byte `b` lies outside the word stored at `a`. -/
def OutsideWord (realmm : Bool) (a b : U32) : Prop :=
  cphys realmm b ≠ cphys realmm a ∧ cphys realmm b ≠ cphys realmm (a + 1) ∧
    cphys realmm b ≠ cphys realmm (a + 2) ∧ cphys realmm b ≠ cphys realmm (a + 3)

theorem Mem.r8_w32_of_outside {m : Mem} {a b v : U32} (h : OutsideWord m.realmm a b) :
    (m.w32 a v).r8 b = m.r8 b := by
  obtain ⟨h0, h1, h2, h3⟩ := h
  rw [Mem.w32_eq, Mem.r8_w8_of_ne (by exact h3), Mem.r8_w8_of_ne (by exact h2),
    Mem.r8_w8_of_ne (by exact h1), Mem.r8_w8_of_ne h0]

theorem Mem.r32_w32_self (m : Mem) (a v : U32) : (m.w32 a v).r32 a = v := by
  have h01 := cphys_add_ne m.realmm a (i := 0) (j := 1) (by decide) (by decide) (by decide)
  have h02 := cphys_add_ne m.realmm a (i := 0) (j := 2) (by decide) (by decide) (by decide)
  have h03 := cphys_add_ne m.realmm a (i := 0) (j := 3) (by decide) (by decide) (by decide)
  have h12 := cphys_add_ne m.realmm a (i := 1) (j := 2) (by decide) (by decide) (by decide)
  have h13 := cphys_add_ne m.realmm a (i := 1) (j := 3) (by decide) (by decide) (by decide)
  have h23 := cphys_add_ne m.realmm a (i := 2) (j := 3) (by decide) (by decide) (by decide)
  rw [BitVec.ofNat_eq_ofNat, BitVec.add_zero] at h01 h02 h03
  rw [Mem.r32_eq, Mem.w32_eq]
  have e0 : ∀ b0 b1 b2 b3, ((((m.w8 a b0).w8 (a + 1) b1).w8 (a + 2) b2).w8 (a + 3) b3).r8 a = b0 := by
    intro b0 b1 b2 b3
    simp only [Mem.r8_w8, Mem.w8_realmm, if_neg h03, if_neg h02, if_neg h01, if_true]
  have e1 : ∀ b0 b1 b2 b3,
      ((((m.w8 a b0).w8 (a + 1) b1).w8 (a + 2) b2).w8 (a + 3) b3).r8 (a + 1) = b1 := by
    intro b0 b1 b2 b3
    simp only [Mem.r8_w8, Mem.w8_realmm, if_neg h13, if_neg h12, if_true]
  have e2 : ∀ b0 b1 b2 b3,
      ((((m.w8 a b0).w8 (a + 1) b1).w8 (a + 2) b2).w8 (a + 3) b3).r8 (a + 2) = b2 := by
    intro b0 b1 b2 b3
    simp only [Mem.r8_w8, Mem.w8_realmm, if_neg h23, if_true]
  rw [e0, e1, e2, Mem.r8_w8_self]
  exact be32_byteOf v

/-- A word keeps its value when every byte of it lies outside the stored word. -/
theorem Mem.r32_w32_of_outside {m : Mem} {a b v : U32}
    (h0 : OutsideWord m.realmm a b) (h1 : OutsideWord m.realmm a (b + 1))
    (h2 : OutsideWord m.realmm a (b + 2)) (h3 : OutsideWord m.realmm a (b + 3)) :
    (m.w32 a v).r32 b = m.r32 b := by
  rw [Mem.r32_eq, Mem.r32_eq, Mem.r8_w32_of_outside h0, Mem.r8_w32_of_outside h1,
    Mem.r8_w32_of_outside h2, Mem.r8_w32_of_outside h3]

/-- An offset outside the word's own four is enough to lie outside the word. -/
theorem outsideWord_of_offset (realmm : Bool) {a b : U32}
    (h : 4 ≤ (b.toNat + 2 ^ 32 - a.toNat) % 4096) : OutsideWord realmm a b := by
  have ha := a.isLt
  have hb := b.isLt
  have key : ∀ k : U32, k.toNat ≤ 3 → cphys realmm b ≠ cphys realmm (a + k) := by
    intro k hk
    apply cphys_ne_of_mod
    rw [BitVec.toNat_add]
    omega
  have key0 := key 0 (by decide)
  rw [BitVec.ofNat_eq_ofNat, BitVec.add_zero] at key0
  exact ⟨key0, key 1 (by decide), key 2 (by decide), key 3 (by decide)⟩

/-- Words at offsets that do not overlap modulo the page size are independent. -/
theorem Mem.r32_w32_of_offset {m : Mem} {a b v : U32}
    (hlo : 4 ≤ (b.toNat + 2 ^ 32 - a.toNat) % 4096)
    (hhi : (b.toNat + 2 ^ 32 - a.toNat) % 4096 ≤ 4092) :
    (m.w32 a v).r32 b = m.r32 b := by
  have ha := a.isLt
  have hb := b.isLt
  have key : ∀ k : U32, k.toNat ≤ 3 → OutsideWord m.realmm a (b + k) := by
    intro k hk
    apply outsideWord_of_offset
    rw [BitVec.toNat_add]
    omega
  exact Mem.r32_w32_of_outside (outsideWord_of_offset _ hlo) (key 1 (by decide))
    (key 2 (by decide)) (key 3 (by decide))

end Nx88
