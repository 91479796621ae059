import Nx88.Cpu.Undefined
/-!
# Bit fields

What the six bit-field operations do to each bit, over all widths and offsets,
and the one that goes wrong: `ext` looks for the sign of a field at the field's
own top bit, which a field that runs past the end of the word does not have.
-/

namespace Nx88

/-! ## The mask -/

def fieldWidth (width : U32) : Nat := if width = 0 then 32 else width.toNat

theorem fieldWidth_pos (width : U32) : 0 < fieldWidth width := by
  unfold fieldWidth
  split
  · decide
  · rename_i h
    rw [← BitVec.toNat_inj] at h
    exact Nat.pos_of_ne_zero h

theorem fieldWidth_le {width : U32} (h : width.toNat < 32) : fieldWidth width ≤ 32 := by
  unfold fieldWidth
  split <;> omega

theorem toNat_effective (width : U32) :
    (if width ≠ 0 then width else (32 : U32)).toNat = fieldWidth width := by
  unfold fieldWidth
  by_cases h : width = 0
  · rw [if_neg (not_not_intro h), if_pos h]
    rfl
  · rw [if_pos h, if_neg h]

theorem shifted_one (n : Nat) : ((1 <<< n : Nat) : U32) = BitVec.twoPow 32 n := by
  rw [BitVec.twoPow_eq, Nat.one_shiftLeft]
  apply BitVec.eq_of_toNat_eq
  rw [BitVec.natCast_eq_ofNat, BitVec.toNat_ofNat, BitVec.toNat_shiftLeft]
  change _ = (1 <<< n) % 2 ^ 32
  rw [Nat.one_shiftLeft]

theorem getLsbD_low {n : Nat} (hn : n < 32) (i : Nat) :
    (((1 <<< n : Nat) : U32) - 1).getLsbD i = decide (i < n) := by
  have hpow : 2 ^ n < 2 ^ 32 := Nat.pow_lt_pow_right (by decide) hn
  have hpos : 0 < 2 ^ n := Nat.two_pow_pos n
  have hlow : (((1 <<< n : Nat) : U32) - 1).toNat = 2 ^ n - 1 := by
    rw [shifted_one, BitVec.toNat_sub, BitVec.toNat_twoPow]
    change (2 ^ 32 - 1 + 2 ^ n % 2 ^ 32) % 2 ^ 32 = _
    omega
  rw [BitVec.getLsbD, hlow, Nat.testBit_two_pow_sub_one]

theorem getLsbD_fieldMask {width : U32} (h : width.toNat < 32) (i : Nat) :
    (fieldMask width).getLsbD i = decide (i < fieldWidth width) := by
  have hle := fieldWidth_le h
  have heff := toNat_effective width
  unfold fieldMask
  simp only
  by_cases hfull : fieldWidth width = 32
  · rw [if_pos (by rw [BitVec.le_def, heff, hfull]; decide), hfull]
    change (BitVec.allOnes 32).getLsbD i = _
    rw [BitVec.getLsbD_allOnes]
  · rw [if_neg (by rw [BitVec.le_def, heff]; simp; omega), heff, getLsbD_low (by omega)]

theorem and_shifted_one_ne_zero (v : U32) {k : Nat} (hk : k < 32) :
    v &&& ((1 <<< k : Nat) : U32) ≠ 0 ↔ v.getLsbD k = true := by
  have hne : BitVec.twoPow 32 k ≠ 0#32 := by
    intro h
    have hself := congrArg (fun x : U32 => x.getLsbD k) h
    simp [hk] at hself
  rw [shifted_one, BitVec.and_twoPow]
  cases v.getLsbD k with
  | false => simp
  | true => simpa using hne

/-! ## Each operation, bit by bit -/

/-- An operation gives the word with the bits `bit`. -/
def HasBits (v : Option U32) (bit : Nat → Bool) : Prop :=
  ∃ x, v = some x ∧ ∀ i < 32, x.getLsbD i = bit i

theorem hasBits_congr {v : Option U32} {bit bit' : Nat → Bool} (h : HasBits v bit)
    (heq : ∀ i < 32, bit i = bit' i) : HasBits v bit' := by
  obtain ⟨x, hx, hbits⟩ := h
  exact ⟨x, hx, fun i hi => (hbits i hi).trans (heq i hi)⟩

/-- Bit `i` lies in the field. -/
def InField (width offset : U32) (i : Nat) : Prop :=
  offset.toNat ≤ i ∧ i < offset.toNat + fieldWidth width

instance (width offset : U32) (i : Nat) : Decidable (InField width offset i) := by
  unfold InField
  infer_instance

variable {a width offset : U32}

theorem extu_bits (a offset : U32) (hwidth : width.toNat < 32) :
    HasBits (bitfieldValue 0x26 a width offset)
      fun i => decide (i < fieldWidth width) && a.getLsbD (offset.toNat + i) := by
  refine ⟨_, rfl, fun i hi => ?_⟩
  rw [BitVec.getLsbD_and, BitVec.getLsbD_ushiftRight, getLsbD_fieldMask hwidth, Bool.and_comm]

theorem mak_bits (a offset : U32) (hwidth : width.toNat < 32) :
    HasBits (bitfieldValue 0x28 a width offset)
      fun i => decide (InField width offset i) && a.getLsbD (i - offset.toNat) := by
  refine ⟨_, rfl, fun i hi => ?_⟩
  rw [BitVec.getLsbD_shiftLeft, BitVec.getLsbD_and,
    getLsbD_fieldMask hwidth]
  unfold InField
  by_cases hlo : i < offset.toNat
  · simp [hlo, hi, Nat.not_le.2 hlo]
  · have hiff : i - offset.toNat < fieldWidth width ↔ i < offset.toNat + fieldWidth width := by
      omega
    simp [hlo, hi, Nat.not_lt.1 hlo, hiff, Bool.and_comm]

theorem getLsbD_fieldMask_shift (offset : U32) (hwidth : width.toNat < 32) {i : Nat}
    (hi : i < 32) :
    (fieldMask width <<< offset.toNat).getLsbD i = decide (InField width offset i) := by
  rw [BitVec.getLsbD_shiftLeft, getLsbD_fieldMask hwidth]
  unfold InField
  simp only [hi, decide_true, Bool.true_and, ← decide_not, ← Bool.decide_and]
  apply decide_eq_decide.2
  omega

theorem clr_bits (a offset : U32) (hwidth : width.toNat < 32) :
    HasBits (bitfieldValue 0x20 a width offset)
      fun i => a.getLsbD i && !decide (InField width offset i) := by
  refine ⟨_, rfl, fun i hi => ?_⟩
  rw [BitVec.getLsbD_and, BitVec.getLsbD_not, getLsbD_fieldMask_shift offset hwidth hi]
  simp [hi]

theorem set_bits (a offset : U32) (hwidth : width.toNat < 32) :
    HasBits (bitfieldValue 0x22 a width offset)
      fun i => a.getLsbD i || decide (InField width offset i) := by
  refine ⟨_, rfl, fun i hi => ?_⟩
  rw [BitVec.getLsbD_or, getLsbD_fieldMask_shift offset hwidth hi]

theorem rot_bits (a width : U32) (hoffset : offset.toNat < 32) :
    HasBits (bitfieldValue 0x2A a width offset) fun i => a.getLsbD ((i + offset.toNat) % 32) := by
  have hmask : offset &&& 31 = offset := by
    apply BitVec.eq_of_toNat_eq
    rw [BitVec.toNat_and]
    change offset.toNat &&& 31 = _
    rw [Nat.and_two_pow_sub_one_eq_mod _ 5, Nat.mod_eq_of_lt hoffset]
  refine ⟨_, rfl, fun i hi => ?_⟩
  simp only [hmask]
  by_cases hzero : offset = 0
  · subst hzero
    rw [if_neg (by simp)]
    simp [Nat.mod_eq_of_lt hi]
  · rw [if_pos hzero, BitVec.getLsbD_or, BitVec.getLsbD_ushiftRight, BitVec.getLsbD_shiftLeft]
    by_cases hwrap : i + offset.toNat < 32
    · have hlow : i < 32 - offset.toNat := by omega
      simp [hlow, hi, Nat.mod_eq_of_lt hwrap, Nat.add_comm]
    · have hhigh : ¬i < 32 - offset.toNat := by omega
      have hmod : (i + offset.toNat) % 32 = i - (32 - offset.toNat) := by omega
      have hpast : a.getLsbD (offset.toNat + i) = false :=
        BitVec.getLsbD_of_ge a _ (by omega)
      simp [hhigh, hi, hmod, hpast]

/-- `ext` repeats upward the bit at the top of the field, wherever that lies. -/
theorem ext_bits (a offset : U32) (hwidth : width.toNat < 32) :
    HasBits (bitfieldValue 0x24 a width offset)
      fun i => a.getLsbD (offset.toNat + min i (fieldWidth width - 1)) := by
  have hpos := fieldWidth_pos width
  have heff := toNat_effective width
  have hfield : ∀ i, ((a >>> offset.toNat) &&& fieldMask width).getLsbD i =
      (decide (i < fieldWidth width) && a.getLsbD (offset.toNat + i)) := by
    intro i
    rw [BitVec.getLsbD_and, BitVec.getLsbD_ushiftRight, getLsbD_fieldMask hwidth, Bool.and_comm]
  -- the sign bit of the field is looked for only below width 32
  have hsign : ((if width ≠ 0 then width else (32 : U32)) < 32 ∧
      ((a >>> offset.toNat) &&& fieldMask width) &&&
        ((1 <<< (fieldWidth width - 1) : Nat) : U32) ≠ 0) ↔
      fieldWidth width < 32 ∧ a.getLsbD (offset.toNat + (fieldWidth width - 1)) = true := by
    rw [BitVec.lt_def, heff]
    apply and_congr_right
    intro hnarrow
    have hnarrow : fieldWidth width < 32 := hnarrow
    rw [and_shifted_one_ne_zero _ (by omega), hfield,
      decide_eq_true (Nat.sub_lt hpos Nat.one_pos), Bool.true_and]
  refine ⟨_, rfl, fun i hi => ?_⟩
  simp only [heff, hsign]
  by_cases hlow : i < fieldWidth width
  · rw [Nat.min_eq_left (by omega)]
    split
    · simp [BitVec.getLsbD_or, hfield, getLsbD_fieldMask hwidth, hlow]
    · simp [hfield, hlow]
  · rw [Nat.min_eq_right (by omega)]
    have hnarrow : fieldWidth width < 32 := by omega
    split
    · rename_i hset
      rw [BitVec.getLsbD_or, BitVec.getLsbD_not, getLsbD_fieldMask hwidth, hset.2]
      simp [hlow, hi]
    · rename_i hclear
      have hbit := Bool.eq_false_iff.2 (fun hset => hclear ⟨hnarrow, hset⟩)
      simp [hfield, hlow, hbit]

/-! ## What the instructions promise -/

namespace Machine

/-- The word `w` is a bit-field instruction on `a` with the given field: in the
immediate form, or with the field taken from a register. -/
structure FieldInsn (m : Machine) (w sub D a width offset : U32) : Prop where
  named : sub.toNat ∈ M88k.BITFIELD.map Prod.fst
  subEq : fieldSub w = sub
  destination : fieldD w = D
  source : m.rd (fieldS1 w) = a
  field : (w >>> 26 = 0x3C ∧ (w >>> 5) &&& 31 = width ∧ w &&& 31 = offset) ∨
    (w >>> 26 = 0x3D ∧ (m.rd (fieldS2 w) >>> 5) &&& 31 = width ∧ m.rd (fieldS2 w) &&& 31 = offset)

theorem FieldInsn.sub_cases {m : Machine} {w sub D a width offset : U32}
    (hinsn : FieldInsn m w sub D a width offset) :
    sub = 0x20 ∨ sub = 0x22 ∨ sub = 0x24 ∨ sub = 0x26 ∨ sub = 0x28 ∨ sub = 0x2A := by
  have hnamed := hinsn.named
  simpa [M88k.BITFIELD, ← BitVec.toNat_inj] using hnamed

theorem execute_fieldInsn {m : Machine} {w sub D a width offset : U32}
    (hinsn : FieldInsn m w sub D a width offset) (h : Host) (pc : U32) :
    m.execute h w pc = (m.bitfield sub D a width offset, .next) := by
  have hsub := hinsn.sub_cases
  rcases hinsn.field with ⟨hop, hwidth, hoffset⟩ | ⟨hop, hwidth, hoffset⟩
  · have htrap : ¬(sub = 0x34 ∨ sub = 0x36 ∨ sub = 0x3A) := by
      rcases hsub with rfl | rfl | rfl | rfl | rfl | rfl <;> decide
    rw [execute_field h pc hop]
    unfold exec3C
    simp only
    rw [hinsn.subEq, if_neg htrap, hinsn.destination, hinsn.source, hwidth, hoffset]
  · have hrange : ¬sub < 0x10 ∧ ¬sub < 0x20 ∧ (0x20 ≤ sub ∧ sub ≤ 0x2A) := by
      rcases hsub with rfl | rfl | rfl | rfl | rfl | rfl <;> decide
    rw [execute_triadic h pc hop]
    unfold exec3D
    simp only
    rw [hinsn.subEq, if_neg hrange.1, if_neg hrange.2.1, if_pos hrange.2.2, hinsn.destination,
      hinsn.source, hwidth, hoffset]

end Machine

/-- What the bit-field instructions promise for an operand and a field. -/
structure SelectsBits (a width offset : U32) : Prop where
  extu : HasBits (bitfieldValue 0x26 a width offset)
    fun i => decide (i < fieldWidth width) && a.getLsbD (offset.toNat + i)
  /-- a field that reaches past bit 31 has bit 31 as its sign -/
  ext : HasBits (bitfieldValue 0x24 a width offset)
    fun i => a.getLsbD (min (offset.toNat + min i (fieldWidth width - 1)) 31)
  shift : width = 0 → bitfieldValue 0x24 a width offset = some (a.sshiftRight offset.toNat)
  mak : HasBits (bitfieldValue 0x28 a width offset)
    fun i => decide (InField width offset i) && a.getLsbD (i - offset.toNat)
  clr : HasBits (bitfieldValue 0x20 a width offset)
    fun i => a.getLsbD i && !decide (InField width offset i)
  set : HasBits (bitfieldValue 0x22 a width offset)
    fun i => a.getLsbD i || decide (InField width offset i)
  rot : bitfieldValue 0x2A a width offset = some (a.rotateRight offset.toNat)
  extuMak : offset.toNat + fieldWidth width ≤ 32 →
    ∃ v, bitfieldValue 0x28 a width offset = some v ∧
      HasBits (bitfieldValue 0x26 v width offset)
        fun i => decide (i < fieldWidth width) && a.getLsbD i
  /-- the immediate and the register form leave the same machine -/
  forms : ∀ (m : Machine) (h : Host) (pc w sub D : U32),
    m.FieldInsn w sub D a width offset →
      ∃ v, bitfieldValue sub a width offset = some v ∧ m.execute h w pc = (m.wr D v, .next)

theorem HasBits.eq_some {v : Option U32} {bit : Nat → Bool} {x : U32} (h : HasBits v bit)
    (heq : ∀ i < 32, bit i = x.getLsbD i) : v = some x := by
  obtain ⟨y, rfl, hbits⟩ := h
  refine congrArg some ?_
  apply BitVec.eq_of_getLsbD_eq
  intro i hi
  rw [hbits i hi, heq i hi]

theorem rot_value (a width : U32) (hoffset : offset.toNat < 32) :
    bitfieldValue 0x2A a width offset = some (a.rotateRight offset.toNat) := by
  refine (rot_bits a width hoffset).eq_some fun i hi => ?_
  rw [BitVec.getLsbD_rotateRight, Nat.mod_eq_of_lt hoffset]
  by_cases hwrap : i < 32 - offset.toNat
  · have hmod : (i + offset.toNat) % 32 = offset.toNat + i := by omega
    simp [hwrap, hmod]
  · have hmod : (i + offset.toNat) % 32 = i - (32 - offset.toNat) := by omega
    simp [hwrap, hmod, hi]

theorem extu_mak (a : U32) (hwidth : width.toNat < 32)
    (hroom : offset.toNat + fieldWidth width ≤ 32) :
    ∃ v, bitfieldValue 0x28 a width offset = some v ∧
      HasBits (bitfieldValue 0x26 v width offset)
        fun i => decide (i < fieldWidth width) && a.getLsbD i := by
  obtain ⟨v, hmak, hbits⟩ := mak_bits a offset hwidth
  refine ⟨v, hmak, hasBits_congr (extu_bits v offset hwidth) fun i hi => ?_⟩
  by_cases hlow : i < fieldWidth width
  · have hin : InField width offset (offset.toNat + i) := ⟨by omega, by omega⟩
    rw [hbits _ (by omega)]
    simp only [decide_eq_true hin, Bool.true_and, Nat.add_sub_cancel_left]
  · rw [decide_eq_false hlow, Bool.false_and, Bool.false_and]

theorem fieldInsn_forms (a width offset : U32) (m : Machine) (h : Host) (pc w sub D : U32)
    (hinsn : m.FieldInsn w sub D a width offset) :
    ∃ v, bitfieldValue sub a width offset = some v ∧ m.execute h w pc = (m.wr D v, .next) := by
  rw [Machine.execute_fieldInsn hinsn h pc]
  rcases hinsn.sub_cases with rfl | rfl | rfl | rfl | rfl | rfl
  · exact ⟨_, rfl, rfl⟩
  · exact ⟨_, rfl, rfl⟩
  · exact ⟨_, rfl, rfl⟩
  · exact ⟨_, rfl, rfl⟩
  · exact ⟨_, rfl, rfl⟩
  · exact ⟨_, rfl, rfl⟩

/-- The top bit of a field, read with bit 31 in place of what lies behind it,
is the bit `ext` reads, unless bit 31 is set and the field runs past it. -/
theorem ext_sign_iff (a : U32) (offset n : Nat) (hn : 0 < n) (hn32 : n ≤ 32) :
    (∀ i < 32, a.getLsbD (offset + min i (n - 1)) = a.getLsbD (min (offset + min i (n - 1)) 31)) ↔
      ¬(32 < offset + n ∧ a.getLsbD 31 = true) := by
  constructor
  · rintro hall ⟨hpast, hsign⟩
    have htop := hall (n - 1) (by omega)
    rw [Nat.min_self, Nat.min_eq_right (by omega), hsign,
      BitVec.getLsbD_of_ge a _ (by omega)] at htop
    exact absurd htop (by decide)
  · intro hok i hi
    have htop := Nat.min_le_right i (n - 1)
    generalize min i (n - 1) = k at htop
    by_cases hin : offset + k < 32
    · rw [Nat.min_eq_left (show offset + k ≤ 31 by omega)]
    · have hclear : a.getLsbD 31 = false :=
        Bool.eq_false_iff.2 fun hsign => hok ⟨by omega, hsign⟩
      rw [Nat.min_eq_right (show 31 ≤ offset + k by omega), hclear,
        BitVec.getLsbD_of_ge a _ (by omega)]

theorem HasBits.unique {v : Option U32} {bit bit' : Nat → Bool} (h : HasBits v bit)
    (h' : HasBits v bit') : ∀ i < 32, bit i = bit' i := by
  obtain ⟨x, hx, hbits⟩ := h
  obtain ⟨y, hy, hbits'⟩ := h'
  cases hx.symm.trans hy
  intro i hi
  rw [← hbits i hi, hbits' i hi]

/-- The bit-field instructions keep all their promises exactly when the field
ends inside the word or bit 31 is clear. -/
theorem selectsBits_iff (a width offset : U32) (hwidth : width.toNat < 32)
    (hoffset : offset.toNat < 32) :
    SelectsBits a width offset ↔
      ¬(32 < offset.toNat + fieldWidth width ∧ a.getLsbD 31 = true) := by
  have hsign := ext_sign_iff a offset.toNat _ (fieldWidth_pos width) (fieldWidth_le hwidth)
  have hbits := ext_bits a offset hwidth
  rw [← hsign]
  constructor
  · intro h
    exact hbits.unique h.ext
  · intro h
    have hext := hasBits_congr hbits h
    refine ⟨extu_bits a offset hwidth, hext, fun hzero => ?_, mak_bits a offset hwidth,
      clr_bits a offset hwidth, set_bits a offset hwidth, rot_value a width hoffset,
      extu_mak a hwidth, fieldInsn_forms a width offset⟩
    subst hzero
    refine hext.eq_some fun i hi => ?_
    rw [BitVec.getLsbD_sshiftRight, BitVec.msb_eq_getLsbD_last]
    change a.getLsbD (min (offset.toNat + min i 31) 31) = _
    rw [Nat.min_eq_left (show i ≤ 31 by omega)]
    by_cases hin : offset.toNat + i < 32
    · rw [Nat.min_eq_left (by omega)]
      simp [hi, hin]
    · rw [Nat.min_eq_right (by omega)]
      simp [hi, hin]

theorem selectsBits_byte : (5 : U32).toNat < 32 ∧ (8 : U32).toNat < 32 ∧
    SelectsBits 0x80001F00 5 8 :=
  ⟨by decide, by decide, (selectsBits_iff 0x80001F00 5 8 (by decide) (by decide)).2
    fun h => absurd h.1 (by decide)⟩

/-- `ext` with width 0 is no arithmetic shift: the sign of -16 is lost. -/
theorem ext_loses_sign : ¬∀ a width offset : U32, width.toNat < 32 → offset.toNat < 32 →
    SelectsBits a width offset := by
  intro hall
  have hshift := (hall 0xFFFFFFF0 0 4 (by decide) (by decide)).shift rfl
  exact absurd hshift (by decide)

end Nx88
