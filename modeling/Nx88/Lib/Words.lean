import Mathlib.Data.Nat.Bitwise
import Mathlib.Tactic.IntervalCases
/-!
# 32-bit words as pages and as bytes

Address arithmetic over 4 KiB pages, and the big-endian correspondence between
a 32-bit word and its four bytes.  Masks are turned into division and
remainder on naturals, where `omega` decides what remains.
-/

namespace Nx88.Lib.Words

/-! ## Pages and offsets -/

def pageAddr (a : BitVec 32) : BitVec 32 := a &&& 0xFFFFF000

def offsetOf (a : BitVec 32) : BitVec 32 := a &&& 0xFFF

theorem pageAddr_eq_shift (a : BitVec 32) : pageAddr a = (a >>> 12) <<< 12 := by
  unfold pageAddr
  ext i hi
  interval_cases i <;> simp

theorem toNat_offsetOf (a : BitVec 32) : (offsetOf a).toNat = a.toNat % 4096 := by
  unfold offsetOf
  rw [BitVec.toNat_and]
  exact Nat.and_two_pow_sub_one_eq_mod a.toNat 12

theorem toNat_pageAddr (a : BitVec 32) : (pageAddr a).toNat = a.toNat / 4096 * 4096 := by
  rw [pageAddr_eq_shift]
  simp only [BitVec.toNat_shiftLeft, BitVec.toNat_ushiftRight, Nat.shiftLeft_eq,
    Nat.shiftRight_eq_div_pow]
  omega

theorem toNat_shift12 (a : BitVec 32) : (a >>> 12).toNat = a.toNat / 4096 := by
  simp [Nat.shiftRight_eq_div_pow]

theorem toNat_pageAddr_or (p q : BitVec 32) :
    (pageAddr p ||| offsetOf q).toNat = p.toNat / 4096 * 4096 + q.toNat % 4096 := by
  have hadd := Nat.shiftLeft_add_eq_or_of_lt
    (Nat.mod_lt q.toNat (by decide : 0 < 2 ^ 12)) (p.toNat / 4096)
  rw [Nat.shiftLeft_eq] at hadd
  rw [BitVec.toNat_or, toNat_offsetOf, toNat_pageAddr]
  exact hadd.symm

theorem pageAddr_or_offsetOf (a : BitVec 32) : pageAddr a ||| offsetOf a = a := by
  apply BitVec.eq_of_toNat_eq
  rw [toNat_pageAddr_or]
  omega

theorem pageAddr_pageAddr (a : BitVec 32) : pageAddr (pageAddr a) = pageAddr a := by
  apply BitVec.eq_of_toNat_eq
  simp only [toNat_pageAddr]
  omega

theorem pageAddr_pageAddr_or (p q : BitVec 32) :
    pageAddr (pageAddr p ||| offsetOf q) = pageAddr p := by
  apply BitVec.eq_of_toNat_eq
  simp only [toNat_pageAddr, toNat_pageAddr_or]
  omega

theorem offsetOf_pageAddr_or (p q : BitVec 32) :
    offsetOf (pageAddr p ||| offsetOf q) = offsetOf q := by
  apply BitVec.eq_of_toNat_eq
  simp only [toNat_offsetOf, toNat_pageAddr_or]
  omega

theorem pageAddr_and_one (p : BitVec 32) : pageAddr p &&& 1 = 0#32 := by
  unfold pageAddr
  ext i hi
  interval_cases i <;> simp

theorem pageAddr_or_one_and_one (p : BitVec 32) : (pageAddr p ||| 1) &&& 1 = 1#32 := by
  unfold pageAddr
  ext i hi
  interval_cases i <;> simp

theorem pageAddr_pageAddr_or_one (p : BitVec 32) : pageAddr (pageAddr p ||| 1) = pageAddr p := by
  unfold pageAddr
  ext i hi
  interval_cases i <;> simp

theorem pageAddr_eq_iff (a b : BitVec 32) : pageAddr a = pageAddr b ↔ a >>> 12 = b >>> 12 := by
  rw [← BitVec.toNat_inj, ← BitVec.toNat_inj, toNat_pageAddr, toNat_pageAddr,
    toNat_shift12, toNat_shift12]
  omega

/-! ## Clearing a mask -/

theorem and_not_eq_iff (a k : BitVec 32) : a &&& ~~~k = a ↔ a &&& k = 0#32 := by
  have hsplit : (a &&& k) ||| (a &&& ~~~k) = a := by
    rw [← BitVec.and_or_distrib_left, BitVec.or_not_self, BitVec.and_allOnes]
  constructor
  · intro h
    have hk : a &&& k = (a &&& ~~~k) &&& k := by rw [h]
    rw [hk, BitVec.and_assoc, BitVec.and_comm (~~~k)]
    simp
  · intro h
    rwa [h, BitVec.zero_or] at hsplit

/-! ## Big-endian bytes -/

/-- The word spelled by four bytes, most significant first. -/
def be32 (b0 b1 b2 b3 : BitVec 8) : BitVec 32 :=
  (b0.setWidth 32 <<< 24) ||| (b1.setWidth 32 <<< 16) ||| (b2.setWidth 32 <<< 8) |||
    b3.setWidth 32

def byteOf (v : BitVec 32) (i : Nat) : BitVec 8 := (v >>> (24 - 8 * i)).setWidth 8

theorem be32_byteOf (v : BitVec 32) :
    be32 (byteOf v 0) (byteOf v 1) (byteOf v 2) (byteOf v 3) = v := by
  unfold be32 byteOf
  ext i hi
  interval_cases i <;> simp

theorem byteOf_be32_zero (b0 b1 b2 b3 : BitVec 8) : byteOf (be32 b0 b1 b2 b3) 0 = b0 := by
  unfold be32 byteOf
  ext i hi
  interval_cases i <;> simp

theorem byteOf_be32_one (b0 b1 b2 b3 : BitVec 8) : byteOf (be32 b0 b1 b2 b3) 1 = b1 := by
  unfold be32 byteOf
  ext i hi
  interval_cases i <;> simp

theorem byteOf_be32_two (b0 b1 b2 b3 : BitVec 8) : byteOf (be32 b0 b1 b2 b3) 2 = b2 := by
  unfold be32 byteOf
  ext i hi
  interval_cases i <;> simp

theorem byteOf_be32_three (b0 b1 b2 b3 : BitVec 8) : byteOf (be32 b0 b1 b2 b3) 3 = b3 := by
  unfold be32 byteOf
  ext i hi
  interval_cases i <;> simp

end Nx88.Lib.Words
