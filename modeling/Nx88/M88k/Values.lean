import Nx88.Cpu.Divide
import Nx88.M88k.Core
/-!
# Values of the two cores

The reference core computes in integers and cuts the result to 32 bits; the
emulator computes in words.  One lemma for each operation says that the cut
integer is the word.
-/

namespace Nx88.M88k

open Lib.Words

/-! ## Integers and words -/

@[simp] theorem ofInt_toNat (a : U32) : BitVec.ofInt 32 (a.toNat : Int) = a := by
  rw [BitVec.ofInt_natCast, BitVec.ofNat_toNat, BitVec.setWidth_eq]

theorem and_MASK32 (n : Nat) : n &&& MASK32 = n % 2 ^ 32 :=
  Nat.and_two_pow_sub_one_eq_mod n 32

theorem toNat_and_MASK32 (a : U32) : a.toNat &&& MASK32 = a.toNat := by
  rw [and_MASK32]
  exact Nat.mod_eq_of_lt a.isLt

theorem ofNat_and_MASK32 (n : Nat) : BitVec.ofNat 32 (n &&& MASK32) = BitVec.ofNat 32 n := by
  apply BitVec.eq_of_toNat_eq
  rw [and_MASK32, BitVec.toNat_ofNat, BitVec.toNat_ofNat, Nat.mod_mod]

/-- Bit `i` of a natural below `2 ^ (i + 1)` says whether it reaches `2 ^ i`. -/
theorem and_topBit {n i : Nat} (h : n < 2 ^ (i + 1)) : n &&& 2 ^ i ≠ 0 ↔ 2 ^ i ≤ n := by
  have hpos : 0 < 2 ^ i := Nat.two_pow_pos i
  rw [Nat.and_two_pow, Nat.testBit_eq_decide_div_mod_eq]
  rw [Nat.pow_succ] at h
  by_cases hle : 2 ^ i ≤ n
  · have hdiv : n / 2 ^ i = 1 := by
      apply Nat.div_eq_of_lt_le <;> omega
    simp [hdiv, hle]
  · have hdiv : n / 2 ^ i = 0 := Nat.div_eq_of_lt (by omega)
    simp [hdiv, hle]

theorem s32_toNat (a : U32) : s32 a.toNat = a.toInt := by
  have hlt := a.isLt
  unfold s32
  simp only
  rw [toNat_and_MASK32, BitVec.toInt_eq_toNat_cond]
  have htop : a.toNat &&& 0x80000000 ≠ 0 ↔ 2 ^ 31 ≤ a.toNat := and_topBit hlt
  by_cases hneg : 2 ^ 31 ≤ a.toNat
  · rw [if_pos (htop.2 hneg), if_neg (by omega)]
    rfl
  · rw [if_neg (fun h => hneg (htop.1 h)), if_pos (by omega)]

theorem toNat_not_eq_ldiff (a : U32) : MASK32.ldiff a.toNat = (~~~a).toNat := by
  apply Nat.eq_of_testBit_eq
  intro i
  rw [Nat.testBit_ldiff, show MASK32 = 2 ^ 32 - 1 from rfl, Nat.testBit_two_pow_sub_one,
    BitVec.testBit_toNat, BitVec.testBit_toNat, BitVec.getLsbD_not]

theorem toNat_and_not (a k : U32) : a.toNat.ldiff k.toNat = (a &&& ~~~k).toNat := by
  apply Nat.eq_of_testBit_eq
  intro i
  rw [Nat.testBit_ldiff, BitVec.testBit_toNat, BitVec.testBit_toNat, BitVec.testBit_toNat,
    BitVec.getLsbD_and, BitVec.getLsbD_not]
  by_cases hi : i < 32
  · simp [hi]
  · simp [hi, BitVec.getLsbD_of_ge a i (by omega)]

/-! ## Conditions -/

theorem toNat_condBit (p : Bool) {n : Nat} (h : n < 32) :
    (condBit p n).toNat = if p then 1 <<< n else 0 := by
  unfold condBit
  cases p with
  | false => rfl
  | true =>
    have hlt : 2 ^ n < 2 ^ 32 := Nat.pow_lt_pow_right (by decide) h
    simp only [if_true, Nat.shiftLeft_eq]
    exact Nat.mod_eq_of_lt (by simpa using hlt)

theorem compare_toNat (a b : U32) : compare a.toNat b.toNat = (doCmp a b).toNat := by
  have heq : BitVec.toNat ((if a = b then 1 <<< C_EQ else 1 <<< C_NE : Nat) : U32) =
      if a.toNat = b.toNat then 1 <<< C_EQ else 1 <<< C_NE := by
    by_cases hab : a = b
    · rw [if_pos hab, if_pos (congrArg BitVec.toNat hab)]
      rfl
    · rw [if_neg hab, if_neg (fun h => hab (BitVec.eq_of_toNat_eq h))]
      rfl
  unfold compare doCmp
  simp only [BitVec.toNat_or, heq, s32_toNat, BitVec.slt_eq_decide, BitVec.sle_eq_decide,
    BitVec.lt_def, BitVec.le_def, gt_iff_lt, ge_iff_le,
    toNat_condBit _ (show C_GT < 32 by decide), toNat_condBit _ (show C_LE < 32 by decide),
    toNat_condBit _ (show C_LT < 32 by decide), toNat_condBit _ (show C_GE < 32 by decide),
    toNat_condBit _ (show C_HI < 32 by decide), toNat_condBit _ (show C_LS < 32 by decide),
    toNat_condBit _ (show C_LO < 32 by decide), toNat_condBit _ (show C_HS < 32 by decide)]
  rfl

theorem cond_toNat (m5 a : U32) : cond m5.toNat a.toNat = condTrue m5 a := by
  have hzero : a.toInt = 0 ↔ a = 0 := ⟨fun h => BitVec.eq_of_toInt_eq h, fun h => by rw [h]; rfl⟩
  have hle : decide (a.toInt ≤ 0) = a.sle 0 := by
    rw [BitVec.sle_eq_decide]
    rfl
  unfold cond condTrue
  simp only [s32_toNat, BitVec.slt_eq_decide, hzero, gt_iff_lt, ge_iff_le, ne_eq,
    show (0#32).sle a = decide (0 ≤ a.toInt) from BitVec.sle_eq_decide ..,
    show (0#32).toInt = 0 from rfl, show BitVec.toInt (0 : U32) = 0 from rfl]
  exact hle ▸ rfl

/-! ## Bit fields -/

theorem toNat_fieldMask {width : U32} (h : width.toNat < 32) :
    (fieldMask width).toNat =
      if (if width.toNat = 0 then 32 else width.toNat) < 32 then
        (1 <<< if width.toNat = 0 then 32 else width.toNat) - 1
      else MASK32 := by
  obtain ⟨n, hn, rfl⟩ : ∃ n < 32, width = BitVec.ofNat 32 n :=
    ⟨width.toNat, h, BitVec.eq_of_toNat_eq (by simp)⟩
  clear h
  interval_cases n <;> decide

theorem ofNat_toNat_shiftLeft (a : U32) (k : Nat) :
    BitVec.ofNat 32 (a.toNat <<< k) = a <<< k := by
  apply BitVec.eq_of_toNat_eq
  rw [BitVec.toNat_ofNat, BitVec.toNat_shiftLeft]

theorem shiftLeft_and_MASK32 (a : U32) (k : Nat) :
    a.toNat <<< k &&& MASK32 = (a <<< k).toNat := by
  rw [and_MASK32, BitVec.toNat_shiftLeft]

/-- Laying ones over the bits that a field lacks subtracts the power behind it. -/
theorem or_not_mask (v : U32) {w : Nat} (hw : w < 32) {m : U32} (hm : m.toNat = 2 ^ w - 1)
    (hv : v &&& ~~~m = 0) : BitVec.ofInt 32 ((v.toNat : Int) - (2 ^ w : Nat)) = v ||| ~~~m := by
  have hpow : 2 ^ w < 2 ^ 32 := Nat.pow_lt_pow_right (by decide) hw
  have hpos : 0 < 2 ^ w := Nat.two_pow_pos w
  have hnot : ~~~m = -BitVec.ofNat 32 (2 ^ w) := by
    have hsucc : BitVec.ofNat 32 (2 ^ w) = m + 1 := by
      apply BitVec.eq_of_toNat_eq
      rw [BitVec.toNat_ofNat, BitVec.toNat_add, hm]
      show _ = (2 ^ w - 1 + 1) % 2 ^ 32
      rw [Nat.sub_add_cancel hpos]
    rw [hsucc]
    bv_omega
  rw [← BitVec.add_eq_or_of_and_eq_zero _ _ hv, hnot, ← BitVec.sub_eq_add_neg]
  rw [Int.sub_eq_add_neg, BitVec.ofInt_add, ofInt_toNat, BitVec.ofInt_neg, BitVec.ofInt_natCast,
    BitVec.sub_eq_add_neg]

section Field

variable (a : U32) {width offset : U32} (hw : width.toNat < 32)

include hw

theorem field_extu :
    (field .extu a.toNat width.toNat offset.toNat).map (BitVec.ofInt 32) =
      bitfieldValue 0x26 a width offset := by
  unfold field
  simp only
  rw [← toNat_fieldMask hw, ← BitVec.toNat_ushiftRight, ← BitVec.toNat_and, Option.map_some,
    ofInt_toNat]
  rfl

theorem field_mak :
    (field .mak a.toNat width.toNat offset.toNat).map (BitVec.ofInt 32) =
      bitfieldValue 0x28 a width offset := by
  unfold field
  simp only
  rw [← toNat_fieldMask hw, ← BitVec.toNat_and, Option.map_some, BitVec.ofInt_natCast,
    ofNat_toNat_shiftLeft]
  rfl

theorem field_clr :
    (field .clr a.toNat width.toNat offset.toNat).map (BitVec.ofInt 32) =
      bitfieldValue 0x20 a width offset := by
  unfold field
  simp only
  rw [← toNat_fieldMask hw, shiftLeft_and_MASK32, toNat_and_not, Option.map_some, ofInt_toNat]
  rfl

theorem field_set :
    (field .set a.toNat width.toNat offset.toNat).map (BitVec.ofInt 32) =
      bitfieldValue 0x22 a width offset := by
  unfold field
  simp only
  rw [← toNat_fieldMask hw, shiftLeft_and_MASK32, ← BitVec.toNat_or, Option.map_some, ofInt_toNat]
  rfl

theorem field_ext :
    (field .ext a.toNat width.toNat offset.toNat).map (BitVec.ofInt 32) =
      bitfieldValue 0x24 a width offset := by
  have hmask := toNat_fieldMask hw
  have hwidth : (if width ≠ 0 then width else 32 : U32).toNat =
      if width.toNat = 0 then 32 else width.toNat := by
    by_cases hzero : width = 0
    · rw [if_neg (not_not.2 hzero), if_pos (by rw [hzero]; rfl)]
      rfl
    · have hne : width.toNat ≠ 0 := fun h => hzero (BitVec.eq_of_toNat_eq h)
      rw [if_pos hzero, if_neg hne]
  have hlt32 : (if width ≠ 0 then width else 32 : U32) < 32 ↔
      (if width.toNat = 0 then 32 else width.toNat) < 32 := by
    rw [BitVec.lt_def, hwidth]
    rfl
  unfold field bitfieldValue
  simp only
  rw [← hmask, ← BitVec.toNat_ushiftRight, ← BitVec.toNat_and, Option.map_some, hwidth,
    if_congr (and_congr_left' hlt32) rfl rfl]
  generalize (if width.toNat = 0 then 32 else width.toNat) = w at *
  generalize hv : a >>> offset.toNat &&& fieldMask width = v
  have hclear : v &&& ~~~fieldMask width = 0 := by
    rw [← hv, BitVec.and_assoc, BitVec.and_not_self]
    exact BitVec.and_zero
  change some (BitVec.ofInt 32 _) =
    some (if w < 32 ∧ v &&& BitVec.ofNat 32 (1 <<< (w - 1)) ≠ 0 then v ||| ~~~fieldMask width
      else v)
  by_cases hlt : w < 32
  · have hpow : 2 ^ (w - 1) < 2 ^ 32 := Nat.pow_lt_pow_right (by decide) (by omega)
    have htop : v.toNat &&& 1 <<< (w - 1) ≠ 0 ↔ v &&& BitVec.ofNat 32 (1 <<< (w - 1)) ≠ 0 := by
      rw [ne_eq, ne_eq, ← BitVec.toNat_inj, BitVec.toNat_and, BitVec.toNat_ofNat, Nat.shiftLeft_eq,
        Nat.one_mul, Nat.mod_eq_of_lt hpow]
      rfl
    rw [if_pos hlt, Nat.shiftLeft_eq, Nat.one_mul] at hmask
    by_cases hneg : v.toNat &&& 1 <<< (w - 1) ≠ 0
    · rw [if_pos ⟨hlt, hneg⟩, if_pos ⟨hlt, htop.1 hneg⟩, Nat.shiftLeft_eq, Nat.one_mul,
        or_not_mask v hlt hmask hclear]
    · rw [if_neg (fun h => hneg h.2), if_neg (fun h => hneg (htop.2 h.2)), ofInt_toNat]
  · rw [if_neg (fun h => hlt h.1), if_neg (fun h => hlt h.1), ofInt_toNat]

end Field

theorem field_rot (a : U32) {offset : U32} (width : Nat) (w : U32) (ho : offset.toNat < 32) :
    (field .rot a.toNat width offset.toNat).map (BitVec.ofInt 32) =
      bitfieldValue 0x2A a w offset := by
  have hsame : offset &&& 31 = offset := by
    apply BitVec.eq_of_toNat_eq
    rw [BitVec.toNat_and]
    exact (Nat.and_two_pow_sub_one_eq_mod _ 5).trans (Nat.mod_eq_of_lt ho)
  have hnat : offset.toNat &&& 31 = offset.toNat :=
    (Nat.and_two_pow_sub_one_eq_mod _ 5).trans (Nat.mod_eq_of_lt ho)
  unfold field bitfieldValue
  simp only
  rw [hnat, hsame, Option.map_some, BitVec.ofInt_natCast, ofNat_and_MASK32, BitVec.ofNat_or,
    ← BitVec.toNat_ushiftRight, BitVec.ofNat_toNat, BitVec.setWidth_eq, ofNat_toNat_shiftLeft]
  by_cases hzero : offset = 0
  · have hout : a <<< (32 - offset.toNat) = 0#32 := by
      rw [hzero]
      exact BitVec.shiftLeft_eq_zero (Nat.le_refl 32)
    rw [if_neg (not_not.2 hzero), hout, hzero]
    exact congrArg some (BitVec.or_zero.trans (BitVec.ushiftRight_zero a))
  · rw [if_pos hzero]
    rfl

/-! ## Branches -/

theorem signed_toNat {k : Nat} (v : BitVec (k + 1)) : signed v.toNat (k + 1) = v.toInt := by
  have hlt := v.isLt
  have htop := and_topBit hlt
  unfold signed
  rw [Nat.add_sub_cancel, Nat.shiftLeft_eq, Nat.one_mul, BitVec.toInt_eq_toNat_cond]
  have hpow : 2 ^ (k + 1) = 2 * 2 ^ k := by rw [Nat.pow_succ, Nat.mul_comm]
  by_cases hneg : 2 ^ k ≤ v.toNat
  · rw [if_pos (htop.2 hneg), if_neg (by omega), Nat.shiftLeft_eq, Nat.one_mul]
  · rw [if_neg (fun h => hneg (htop.1 h)), if_pos (by omega)]

theorem targetOf_signExtend {k : Nat} (addr : U32) (v : BitVec (k + 1)) :
    targetOf addr (signed v.toNat (k + 1)) = addr + (v.signExtend 32 <<< 2) := by
  have hshift : v.signExtend 32 <<< 2 = BitVec.ofInt 32 v.toInt * 4#32 :=
    BitVec.shiftLeft_eq_mul_twoPow _ _
  rw [targetOf, signed_toNat, hshift, BitVec.ofInt_add, ofInt_toNat, BitVec.ofInt_mul]
  rfl

theorem sshiftRight_shiftLeft (w : U32) :
    (w <<< 6).sshiftRight 6 = (w.setWidth 26).signExtend 32 := by
  have hmsb : w.getMsbD 6 = (w.setWidth 26).msb := by
    rw [BitVec.msb_eq_getLsbD_last, BitVec.getMsbD_eq_getLsbD]
    simp
  ext i hi
  interval_cases i <;> simp [BitVec.getElem_sshiftRight, BitVec.getElem_signExtend, hmsb]

theorem toNat_and_low (w : U32) {k : Nat} {mask : U32}
    (hmask : mask.toNat = 2 ^ k - 1) : (w &&& mask).toNat = (w.setWidth k).toNat := by
  rw [BitVec.toNat_and, hmask, Nat.and_two_pow_sub_one_eq_mod, BitVec.toNat_setWidth]

theorem targetOf_br (w addr : U32) :
    targetOf addr (signed (w &&& 0x03FFFFFF).toNat 26) =
      addr + ((w <<< 6).sshiftRight 6 <<< 2) := by
  rw [toNat_and_low w (k := 26) rfl, sshiftRight_shiftLeft]
  exact targetOf_signExtend addr (w.setWidth 26)

theorem targetOf_branch16 (w addr : U32) :
    targetOf addr (signed (w &&& 0xFFFF).toNat 16) =
      Machine.branch16 addr (Machine.fieldImm w) := by
  have hwidth : (Machine.fieldImm w).setWidth 16 = w.setWidth 16 := by
    apply BitVec.eq_of_toNat_eq
    rw [Machine.fieldImm, BitVec.toNat_setWidth, toNat_and_low w (k := 16) rfl,
      BitVec.toNat_setWidth, Nat.mod_mod]
  rw [toNat_and_low w (k := 16) rfl, Machine.branch16, hwidth]
  exact targetOf_signExtend addr (w.setWidth 16)

/-! ## Bytes -/

theorem pack_four (v : U32) :
    pack 4 (v.toNat &&& MASK32) =
      [byteOf v 0, byteOf v 1, byteOf v 2, byteOf v 3] := by
  have hbyte : ∀ i, BitVec.ofNat 8 (v.toNat >>> i) = (v >>> i).setWidth 8 := by
    intro i
    apply BitVec.eq_of_toNat_eq
    rw [BitVec.toNat_ofNat, BitVec.toNat_setWidth, BitVec.toNat_ushiftRight]
  rw [toNat_and_MASK32]
  unfold pack byteOf
  simp only [← hbyte]
  rfl

theorem toNat_byte_shift (b : U8) {i : Nat} (h : i ≤ 24) :
    (b.setWidth 32 <<< i).toNat = b.toNat <<< i := by
  have hlt := b.isLt
  have hpow : 2 ^ i ≤ 2 ^ 24 := Nat.pow_le_pow_right (by decide) h
  rw [BitVec.toNat_shiftLeft, BitVec.toNat_setWidth, Nat.mod_eq_of_lt (a := b.toNat) (by omega)]
  apply Nat.mod_eq_of_lt
  rw [Nat.shiftLeft_eq]
  calc b.toNat * 2 ^ i ≤ 255 * 2 ^ 24 := Nat.mul_le_mul (by omega) hpow
    _ < 2 ^ 32 := by decide

theorem unpack_four (b0 b1 b2 b3 : U8) : unpack [b0, b1, b2, b3] = (be32 b0 b1 b2 b3).toNat := by
  have h1 := b1.isLt
  have h2 := b2.isLt
  have h3 := b3.isLt
  have hlast : (b3.setWidth 32).toNat = b3.toNat := by
    rw [BitVec.toNat_setWidth]
    omega
  have e2 : b2.toNat <<< 8 ||| b3.toNat = b2.toNat * 2 ^ 8 + b3.toNat := by
    rw [← Nat.shiftLeft_add_eq_or_of_lt h3, Nat.shiftLeft_eq]
  have e1 : b1.toNat <<< 16 ||| (b2.toNat * 2 ^ 8 + b3.toNat) =
      b1.toNat * 2 ^ 16 + (b2.toNat * 2 ^ 8 + b3.toNat) := by
    rw [← Nat.shiftLeft_add_eq_or_of_lt (by omega), Nat.shiftLeft_eq]
  have e0 : b0.toNat <<< 24 ||| (b1.toNat * 2 ^ 16 + (b2.toNat * 2 ^ 8 + b3.toNat)) =
      b0.toNat * 2 ^ 24 + (b1.toNat * 2 ^ 16 + (b2.toNat * 2 ^ 8 + b3.toNat)) := by
    rw [← Nat.shiftLeft_add_eq_or_of_lt (by omega), Nat.shiftLeft_eq]
  unfold be32
  rw [BitVec.or_assoc, BitVec.or_assoc, BitVec.toNat_or, BitVec.toNat_or, BitVec.toNat_or,
    toNat_byte_shift b0 (by decide), toNat_byte_shift b1 (by decide),
    toNat_byte_shift b2 (by decide), hlast, e2, e1, e0]
  simp only [unpack, List.foldl]
  omega

theorem pack_two (v : U32) :
    pack 2 (v.toNat &&& 0xFFFF) =
      [((v.setWidth 16 : U16) >>> 8).setWidth 8, (v.setWidth 16 : U16).setWidth 8] := by
  have hlow : v.toNat &&& 0xFFFF = (v.setWidth 16 : U16).toNat := by
    rw [BitVec.toNat_setWidth]
    exact Nat.and_two_pow_sub_one_eq_mod _ 16
  have hbyte : ∀ (x : U16) (i : Nat), BitVec.ofNat 8 (x.toNat >>> i) = (x >>> i).setWidth 8 := by
    intro x i
    apply BitVec.eq_of_toNat_eq
    rw [BitVec.toNat_ofNat, BitVec.toNat_setWidth, BitVec.toNat_ushiftRight]
  have hzero : (v.setWidth 16 : U16).setWidth 8 = ((v.setWidth 16 : U16) >>> 0).setWidth 8 := by
    rw [BitVec.ushiftRight_zero]
  rw [hlow, hzero, ← hbyte, ← hbyte]
  rfl

theorem unpack_two (b0 b1 : U8) :
    unpack [b0, b1] = (((b0.setWidth 16 : U16) <<< 8) ||| b1.setWidth 16).toNat := by
  have h0 := b0.isLt
  have h1 := b1.isLt
  have hhigh : ((b0.setWidth 16 : U16) <<< 8).toNat = b0.toNat <<< 8 := by
    rw [BitVec.toNat_shiftLeft, BitVec.toNat_setWidth, Nat.mod_eq_of_lt (a := b0.toNat) (by omega)]
    exact Nat.mod_eq_of_lt (by rw [Nat.shiftLeft_eq]; omega)
  have hlow : (b1.setWidth 16).toNat = b1.toNat := by
    rw [BitVec.toNat_setWidth]
    omega
  rw [BitVec.toNat_or, hhigh, hlow, ← Nat.shiftLeft_add_eq_or_of_lt (by omega)]
  simp only [unpack, List.foldl, Nat.shiftLeft_eq]
  omega

theorem pack_one (v : U32) : pack 1 (v.toNat &&& 0xFF) = [v.setWidth 8] := by
  have hlow : v.toNat &&& 0xFF = v.toNat % 2 ^ 8 := Nat.and_two_pow_sub_one_eq_mod _ 8
  have hbyte : BitVec.ofNat 8 (v.toNat &&& 0xFF) = v.setWidth 8 := by
    apply BitVec.eq_of_toNat_eq
    rw [hlow, BitVec.toNat_ofNat, BitVec.toNat_setWidth, Nat.mod_mod]
  rw [← hbyte]
  rfl

theorem unpack_one (b : U8) : unpack [b] = b.toNat := by
  simp [unpack]

theorem ofInt_signed {k : Nat} (v : BitVec (k + 1)) :
    BitVec.ofInt 32 (if v.toNat &&& 2 ^ k ≠ 0 then (v.toNat : Int) - (2 ^ (k + 1) : Nat)
      else v.toNat) = v.signExtend 32 := by
  have hsigned := signed_toNat v
  unfold signed at hsigned
  rw [Nat.add_sub_cancel, Nat.shiftLeft_eq, Nat.one_mul, Nat.shiftLeft_eq, Nat.one_mul] at hsigned
  rw [hsigned]
  rfl

end Nx88.M88k
