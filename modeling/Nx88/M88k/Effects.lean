import Nx88.M88k.Matching
/-!
# The same effect on registers

Every instruction without a data access that both cores implement has the same
effect on matching states: the same registers, the same branch, the same trap.
-/

namespace Nx88

open Lib Lib.Words M88k Machine

/-! ## What is decoded -/

namespace M88k

theorem mem_of_lookup {table : List (Nat × Mnemonic)} {k : Nat} {mn : Mnemonic}
    (h : table.lookup k = some mn) : (k, mn) ∈ table := by
  obtain ⟨l₁, l₂, rfl, -⟩ := List.lookup_eq_some_iff.1 h
  exact List.mem_append_right _ (List.mem_cons_self ..)

/-- The ways a word can be accepted. -/
inductive Decoded (w pc : U32) : Insn → Prop where
  | memory {mn : Mnemonic} (op : ((w >>> 26).toNat, mn) ∈ LOAD_STORE) :
    Decoded w pc ⟨pc, w, mn, none⟩
  | immediate {mn : Mnemonic} (op : ((w >>> 26).toNat, mn) ∈ ALU_IMM) :
    Decoded w pc ⟨pc, w, mn, none⟩
  | control {mn : Mnemonic} (op : w >>> 26 = 0x20)
    (sub : (((w >>> 11) &&& 0x1F).toNat, mn) ∈ CTLREG) : Decoded w pc ⟨pc, w, mn, none⟩
  | float {mn : Mnemonic} (sub : (((w >>> 11) &&& 0x1F).toNat, mn) ∈ FPU) :
    Decoded w pc ⟨pc, w, mn, none⟩
  | jump {mn : Mnemonic} (op : ((w >>> 26).toNat, mn) ∈ UNCOND) :
    Decoded w pc ⟨pc, w, mn, some (targetOf pc (signed (w &&& 0x03FFFFFF).toNat 26))⟩
  | bit {mn : Mnemonic} (op : ((w >>> 26).toNat, mn) ∈ BITBR) :
    Decoded w pc ⟨pc, w, mn, some (targetOf pc (signed (w &&& 0xFFFF).toNat 16))⟩
  | condition {mn : Mnemonic} (op : ((w >>> 26).toNat, mn) ∈ CONDBR) :
    Decoded w pc ⟨pc, w, mn, some (targetOf pc (signed (w &&& 0xFFFF).toNat 16))⟩
  | trap {mn : Mnemonic} (op : w >>> 26 = 0x3C) (sub : ((fieldSub w).toNat, mn) ∈ TRAP) :
    Decoded w pc ⟨pc, w, mn, none⟩
  | field {mn : Mnemonic} (op : w >>> 26 = 0x3C) (sub : ((fieldSub w).toNat, mn) ∈ BITFIELD) :
    Decoded w pc ⟨pc, w, mn, none⟩
  | triadic {mn : Mnemonic} (op : w >>> 26 = 0x3D) (sub : ((fieldSub w).toNat, mn) ∈ TRIADIC) :
    Decoded w pc ⟨pc, w, mn, none⟩

theorem decoded_of_decode {w pc : U32} {ins : Insn} (h : decode w pc = some ins) :
    Decoded w pc ins := by
  have hop : ∀ {n : Nat}, n < 2 ^ 32 → (w >>> 26).toNat = n → w >>> 26 = BitVec.ofNat 32 n :=
    fun hn hw => BitVec.eq_of_toNat_eq (by rw [hw, BitVec.toNat_ofNat, Nat.mod_eq_of_lt hn])
  unfold decode at h
  simp only at h
  rw [opcode_and] at h
  split at h
  · rename_i hload
    cases h
    exact .memory (mem_of_lookup hload)
  split at h
  · rename_i halu
    cases h
    exact .immediate (mem_of_lookup halu)
  split at h
  · rename_i h20
    obtain ⟨mn, hsub, rfl⟩ := Option.map_eq_some_iff.1 h
    exact .control (hop (by decide) h20) (mem_of_lookup hsub)
  split at h
  · obtain ⟨mn, hsub, rfl⟩ := Option.map_eq_some_iff.1 h
    exact .float (mem_of_lookup hsub)
  split at h
  · rename_i hbr
    cases h
    exact .jump (mem_of_lookup hbr)
  split at h
  · rename_i hbb
    cases h
    exact .bit (mem_of_lookup hbb)
  split at h
  · rename_i hcond
    split at h
    · cases h
      exact .condition (mem_of_lookup hcond)
    · cases h
  split at h
  · rename_i h3C
    split at h
    · rename_i htrap
      cases h
      exact .trap (hop (by decide) h3C) (mem_of_lookup htrap)
    · obtain ⟨mn, hsub, rfl⟩ := Option.map_eq_some_iff.1 h
      exact .field (hop (by decide) h3C) (mem_of_lookup hsub)
  split at h
  · rename_i h3D
    obtain ⟨mn, hsub, rfl⟩ := Option.map_eq_some_iff.1 h
    exact .triadic (hop (by decide) h3D) (mem_of_lookup hsub)
  · cases h

def TRI_ALU : List (Nat × Mnemonic) :=
  [(0x10, .and), (0x11, .andC), (0x14, .xor), (0x15, .xorC), (0x16, .or), (0x17, .orC),
   (0x18, .addu), (0x19, .subu), (0x1A, .divu), (0x1B, .mul),
   (0x1C, .add), (0x1D, .sub), (0x1E, .div), (0x1F, .cmp)]

def TRI_JUMP : List (Nat × Mnemonic) :=
  [(0x30, .jmp), (0x31, .jmpN), (0x32, .jsr), (0x33, .jsrN)]

/-- The part that one of the two cores does not implement, or not in the same place. -/
def TRI_REST : List (Nat × Mnemonic) :=
  [(0x34, .ff1), (0x36, .ff0), (0x3E, .tbnd), (0x3F, .rte)]

theorem triadic_groups {row : Nat × Mnemonic} (h : row ∈ TRIADIC) :
    row ∈ LOAD_STORE ∨ row ∈ TRI_ALU ∨ row ∈ BITFIELD ∨ row ∈ TRI_JUMP ∨ row ∈ TRI_REST := by
  have hsplit : TRIADIC = LOAD_STORE ++ (TRI_ALU ++ (BITFIELD ++ (TRI_JUMP ++ TRI_REST))) := rfl
  rw [hsplit] at h
  simpa only [List.mem_append] using h

end M88k

/-! ## One effect -/

/-- An instruction that matching states execute alike: both go on to matching
states, or both branch there, or both trap with nothing changed. -/
inductive SameEffect (m : Machine) (delayed : Bool) :
    Except Raise (Core × Option Nat) → Machine × Flow → Prop where
  | next {c' : Core} {m' : Machine} (h : Matches c' m') :
    SameEffect m delayed (.ok (c', none)) (m', .next)
  | jump {c' : Core} {m' : Machine} (h : Matches c' m') (target : U32) :
    SameEffect m delayed (.ok (c', some target.toNat)) (m', .jump target delayed)
  | trap (vector : Int) (pc : Nat) (hpc : pc = m.cpu.pc.toNat) :
    SameEffect m delayed (.error (.trap vector pc)) (m, .trap (BitVec.ofInt 32 vector))

section Instructions

variable {c : Core} {m : Machine}

/-! ## Arithmetic -/

theorem SameEffect.value (hm : Matches c m) (delayed : Bool) {D v : U32} {x : Int}
    (hD : D.toNat < 32) (hx : BitVec.ofInt 32 x = v) :
    SameEffect m delayed ((Except.ok x).map fun v => (c.set D.toNat v, none)) (m.wr D v, .next) :=
  .next (hm.set hD hx)

theorem alu_div (hm : Matches c m) {D : U32} (hD : D.toNat < 32) (a b : U32) (imm delayed : Bool) :
    SameEffect m delayed ((c.alu .div imm a.toNat b.toNat).map fun v => (c.set D.toNat v, none))
      (if b = 0 then (m, divzero) else (m.wr D (a.sdiv b), .next)) := by
  have hzero : b.toNat = 0 ↔ b = 0 := ⟨fun h => BitVec.eq_of_toNat_eq h, fun h => by rw [h]; rfl⟩
  unfold Core.alu
  simp only
  by_cases hb : b = 0
  · rw [if_pos hb, if_pos (hzero.2 hb)]
    exact .trap 6 c.pc hm.pc
  · rw [if_neg hb, if_neg (mt hzero.1 hb), s32_toNat, s32_toNat]
    refine .value hm delayed hD ?_
    rw [sdiv_eq_quotient, ← referenceDiv_eq]
    rfl

theorem alu_divu (hm : Matches c m) {D : U32} (hD : D.toNat < 32) (a b : U32) (imm delayed : Bool) :
    SameEffect m delayed ((c.alu .divu imm a.toNat b.toNat).map fun v => (c.set D.toNat v, none))
      (if b = 0 then (m, divzero) else (m.wr D (a / b), .next)) := by
  have hzero : b.toNat = 0 ↔ b = 0 := ⟨fun h => BitVec.eq_of_toNat_eq h, fun h => by rw [h]; rfl⟩
  unfold Core.alu
  simp only
  by_cases hb : b = 0
  · rw [if_pos hb, if_pos (hzero.2 hb)]
    exact .trap 6 c.pc hm.pc
  · rw [if_neg hb, if_neg (mt hzero.1 hb)]
    refine .value hm delayed hD ?_
    rw [← BitVec.toNat_udiv, ofInt_toNat]

theorem cut_or (a b : U32) : BitVec.ofInt 32 (a.toNat ||| b.toNat : Nat) = a ||| b := by
  rw [← BitVec.toNat_or, ofInt_toNat]

theorem cut_and (a b : U32) : BitVec.ofInt 32 (a.toNat &&& b.toNat : Nat) = a &&& b := by
  rw [← BitVec.toNat_and, ofInt_toNat]

theorem cut_xor (a b : U32) : BitVec.ofInt 32 (a.toNat ^^^ b.toNat : Nat) = a ^^^ b := by
  rw [← BitVec.toNat_xor, ofInt_toNat]

theorem cut_add (a b : U32) : BitVec.ofInt 32 (a.toNat + b.toNat : Nat) = a + b := by
  rw [BitVec.ofInt_natCast, BitVec.ofNat_add, BitVec.ofNat_toNat, BitVec.ofNat_toNat,
    BitVec.setWidth_eq, BitVec.setWidth_eq]

theorem cut_sub (x y : Int) (a b : U32) (hx : BitVec.ofInt 32 x = a) (hy : BitVec.ofInt 32 y = b) :
    BitVec.ofInt 32 (x - y) = a - b := by
  rw [Int.sub_eq_add_neg, BitVec.ofInt_add, BitVec.ofInt_neg, hx, hy, BitVec.sub_eq_add_neg]

theorem cut_signed_add (a b : U32) : BitVec.ofInt 32 (s32 a.toNat + s32 b.toNat) = a + b := by
  rw [s32_toNat, s32_toNat, BitVec.ofInt_add, BitVec.ofInt_toInt, BitVec.ofInt_toInt]

theorem cut_signed_sub (a b : U32) : BitVec.ofInt 32 (s32 a.toNat - s32 b.toNat) = a - b := by
  rw [s32_toNat, s32_toNat]
  exact cut_sub _ _ a b BitVec.ofInt_toInt BitVec.ofInt_toInt

theorem cut_mul (a b : U32) :
    BitVec.ofInt 32 ((a.toNat * b.toNat) &&& MASK32 : Nat) = a * b := by
  rw [BitVec.ofInt_natCast, ofNat_and_MASK32, BitVec.ofNat_mul, BitVec.ofNat_toNat,
    BitVec.ofNat_toNat, BitVec.setWidth_eq, BitVec.setWidth_eq]

theorem cut_upper {b : U32} (hb : b.toNat < 2 ^ 16) : b.toNat <<< 16 = (b <<< 16).toNat := by
  rw [BitVec.toNat_shiftLeft, Nat.mod_eq_of_lt]
  rw [Nat.shiftLeft_eq]
  omega

theorem execImm_same (hm : Matches c m) {D : U32} (hD : D.toNat < 32) (a : U32) {b op : U32}
    (hb : b.toNat < 2 ^ 16) {mn : Mnemonic} (hop : (op.toNat, mn) ∈ ALU_IMM) (delayed : Bool) :
    SameEffect m delayed ((c.alu mn true a.toNat b.toNat).map fun v => (c.set D.toNat v, none))
      (m.execImm op D a b) := by
  have hupper := cut_upper hb
  simp only [ALU_IMM, List.mem_cons, Prod.mk.injEq, List.not_mem_nil, or_false] at hop
  unfold execImm
  rcases hop with h | h | h | h | h | h | h | h | h | h | h | h | h | h | h | h
  all_goals
    obtain ⟨hop, rfl⟩ := h
    rw [hop]
  · exact .value hm delayed hD (cut_and a (0xFFFF0000 ||| b))
  · refine .value hm delayed hD ?_
    rw [hupper]
    exact cut_and a (0x0000FFFF ||| (b <<< 16))
  · exact .value hm delayed hD (cut_and a b)
  · refine .value hm delayed hD ?_
    rw [hupper]
    exact cut_and a (b <<< 16)
  · exact .value hm delayed hD (cut_xor a b)
  · refine .value hm delayed hD ?_
    rw [hupper]
    exact cut_xor a (b <<< 16)
  · exact .value hm delayed hD (cut_or a b)
  · refine .value hm delayed hD ?_
    rw [hupper]
    exact cut_or a (b <<< 16)
  · exact .value hm delayed hD (cut_add a b)
  · exact .value hm delayed hD (cut_sub _ _ a b (ofInt_toNat a) (ofInt_toNat b))
  · exact alu_divu hm hD a b true delayed
  · exact .value hm delayed hD (cut_mul a b)
  · exact .value hm delayed hD (cut_signed_add a b)
  · exact .value hm delayed hD (cut_signed_sub a b)
  · exact alu_div hm hD a b true delayed
  · refine .value hm delayed hD ?_
    rw [compare_toNat, ofInt_toNat]

theorem execTri_same (hm : Matches c m) {D : U32} (hD : D.toNat < 32) (a b : U32) {sub : U32}
    {mn : Mnemonic} (hsub : (sub.toNat, mn) ∈ TRI_ALU) (delayed : Bool) :
    SameEffect m delayed ((c.alu mn false a.toNat b.toNat).map fun v => (c.set D.toNat v, none))
      (m.execTri sub D a b) := by
  have hnot : MASK32.ldiff b.toNat = (~~~b).toNat := toNat_not_eq_ldiff b
  simp only [TRI_ALU, List.mem_cons, Prod.mk.injEq, List.not_mem_nil, or_false] at hsub
  unfold execTri
  rcases hsub with h | h | h | h | h | h | h | h | h | h | h | h | h | h
  all_goals
    obtain ⟨hsub, rfl⟩ := h
    rw [hsub]
  · exact .value hm delayed hD (cut_and a b)
  · refine .value hm delayed hD ?_
    rw [hnot]
    exact cut_and a (~~~b)
  · exact .value hm delayed hD (cut_xor a b)
  · refine .value hm delayed hD ?_
    rw [hnot]
    exact cut_xor a (~~~b)
  · exact .value hm delayed hD (cut_or a b)
  · refine .value hm delayed hD ?_
    rw [hnot]
    exact cut_or a (~~~b)
  · exact .value hm delayed hD (cut_add a b)
  · exact .value hm delayed hD (cut_sub _ _ a b (ofInt_toNat a) (ofInt_toNat b))
  · exact alu_divu hm hD a b false delayed
  · exact .value hm delayed hD (cut_mul a b)
  · exact .value hm delayed hD (cut_signed_add a b)
  · exact .value hm delayed hD (cut_signed_sub a b)
  · exact alu_div hm hD a b false delayed
  · refine .value hm delayed hD ?_
    rw [compare_toNat, ofInt_toNat]

/-! ## Bit fields -/

theorem bitfield_same (hm : Matches c m) {D : U32} (hD : D.toNat < 32) (a : U32)
    {sub width offset : U32} (hw : width.toNat < 32) (ho : offset.toNat < 32) {mn : Mnemonic}
    (hsub : (sub.toNat, mn) ∈ BITFIELD) :
    Matches (c.bitfield mn D.toNat a.toNat width.toNat offset.toNat)
      (m.bitfield sub D a width offset) := by
  have hvalue : (field mn a.toNat width.toNat offset.toNat).map (BitVec.ofInt 32) =
      bitfieldValue sub a width offset := by
    have hof : sub = BitVec.ofNat 32 sub.toNat := by rw [BitVec.ofNat_toNat, BitVec.setWidth_eq]
    simp only [BITFIELD, List.mem_cons, Prod.mk.injEq, List.not_mem_nil, or_false] at hsub
    rcases hsub with h | h | h | h | h | h
    all_goals
      obtain ⟨hsub, rfl⟩ := h
      rw [hof, hsub]
    · exact field_clr a hw
    · exact field_set a hw
    · exact field_ext a hw
    · exact field_extu a hw
    · exact field_mak a hw
    · exact field_rot a width.toNat width ho
  unfold Core.bitfield Machine.bitfield
  rw [← hvalue]
  cases field mn a.toNat width.toNat offset.toNat with
  | none => exact hm
  | some x => exact hm.set hD rfl

/-! ## Control transfer -/

theorem link_same (hm : Matches c m) (n : Nat) (v : U32) (hv : BitVec.ofNat 32 n = v) :
    Matches (c.set 1 n) (m.wr 1 v) :=
  hm.set (n := 1) (by decide) ((BitVec.ofInt_natCast 32 n).trans hv)

theorem execBr_same (hm : Matches c m) {w : U32} {mn : Mnemonic} (h : Host)
    (hop : ((w >>> 26).toNat, mn) ∈ UNCOND) :
    SameEffect m mn.delayed
      (c.execute ⟨m.cpu.pc, w, mn, some (targetOf m.cpu.pc (signed (w &&& 0x03FFFFFF).toNat 26))⟩ w)
      (m.execute h w m.cpu.pc) := by
  have hof : w >>> 26 = BitVec.ofNat 32 (w >>> 26).toNat := by
    rw [BitVec.ofNat_toNat, BitVec.setWidth_eq]
  have hbr : ∀ op : U32, w >>> 26 = op → 0x30 ≤ op ∧ op ≤ 0x33 →
      m.execute h w m.cpu.pc = m.execBr w m.cpu.pc op := by
    intro op hw hrange
    unfold Machine.execute
    simp only
    rw [hw, if_neg (by bv_omega), if_neg (by bv_omega), if_neg (by bv_omega),
      if_neg (by bv_omega), if_pos hrange]
  have hafter : ∀ k : Nat, BitVec.ofNat 32 (c.pc + k) = m.cpu.pc + BitVec.ofNat 32 k := by
    intro k
    rw [hm.pc, BitVec.ofNat_add, BitVec.ofNat_toNat, BitVec.setWidth_eq]
  rw [targetOf_br]
  simp only [UNCOND, List.mem_cons, Prod.mk.injEq, List.not_mem_nil, or_false] at hop
  rcases hop with h | h | h | h
  all_goals
    obtain ⟨hop, rfl⟩ := h
    rw [hop] at hof
    rw [hbr _ hof (by decide)]
  · exact .jump hm _
  · exact .jump hm _
  · exact .jump (link_same hm _ _ (hafter 4)) _
  · exact .jump (link_same hm _ _ (hafter 8)) _

theorem bit_zero (a : U32) (k : Nat) : (a.toNat >>> k) &&& 1 = 0 ↔ (a >>> k) &&& 1 = 0 := by
  rw [← BitVec.toNat_inj, BitVec.toNat_and, BitVec.toNat_ushiftRight]
  rfl

theorem bit_one (a : U32) (k : Nat) : (a.toNat >>> k) &&& 1 ≠ 0 ↔ (a >>> k) &&& 1 = 1 := by
  rw [← BitVec.toNat_inj, BitVec.toNat_and, BitVec.toNat_ushiftRight]
  have hmod : (a.toNat >>> k) &&& 1 = (a.toNat >>> k) % 2 := Nat.and_one_is_mod _
  show _ ↔ (a.toNat >>> k) &&& 1 = 1
  omega

theorem branch_same (hm : Matches c m) {p q : Prop} [Decidable p] [Decidable q] (hpq : p ↔ q)
    (target : U32) (delayed : Bool) :
    SameEffect m delayed (.ok (c, if p then some target.toNat else none))
      (m, if q then .jump target delayed else .next) := by
  by_cases hp : p
  · rw [if_pos hp, if_pos (hpq.1 hp)]
    exact .jump hm target
  · rw [if_neg hp, if_neg (mt hpq.2 hp)]
    exact .next hm

theorem trap_same (hm : Matches c m) {p q : Prop} [Decidable p] [Decidable q] (hpq : p ↔ q)
    (v : U32) (delayed : Bool) :
    SameEffect m delayed
      (if p then .error (.trap v.toNat c.pc) else .ok (c, none))
      (m, if q then .trap v else .next) := by
  by_cases hp : p
  · rw [if_pos hp, if_pos (hpq.1 hp)]
    have htrap : SameEffect m delayed (.error (.trap v.toNat c.pc))
        (m, .trap (BitVec.ofInt 32 v.toNat)) := .trap v.toNat c.pc hm.pc
    rwa [ofInt_toNat] at htrap
  · rw [if_neg hp, if_neg (mt hpq.2 hp)]
    exact .next hm

theorem fieldD_lt (w : U32) : (fieldD w).toNat < 32 := by
  rw [fieldD, BitVec.toNat_and]
  exact Nat.lt_of_le_of_lt Nat.and_le_right (by decide)

theorem fieldS1_lt (w : U32) : (fieldS1 w).toNat < 32 := by
  rw [fieldS1, BitVec.toNat_and]
  exact Nat.lt_of_le_of_lt Nat.and_le_right (by decide)

theorem fieldS2_lt (w : U32) : (fieldS2 w).toNat < 32 := by
  rw [fieldS2, BitVec.toNat_and]
  exact Nat.lt_of_le_of_lt Nat.and_le_right (by decide)

theorem execBb_same (hm : Matches c m) {w : U32} {mn : Mnemonic} (h : Host)
    (hop : ((w >>> 26).toNat, mn) ∈ BITBR) :
    SameEffect m mn.delayed
      (c.execute ⟨m.cpu.pc, w, mn, some (targetOf m.cpu.pc (signed (w &&& 0xFFFF).toNat 16))⟩ w)
      (m.execute h w m.cpu.pc) := by
  have hof : w >>> 26 = BitVec.ofNat 32 (w >>> 26).toNat := by
    rw [BitVec.ofNat_toNat, BitVec.setWidth_eq]
  have hbb : ∀ op : U32, w >>> 26 = op → 0x34 ≤ op ∧ op ≤ 0x37 → m.execute h w m.cpu.pc =
      m.execBb m.cpu.pc op (fieldD w) (m.rd (fieldS1 w)) (fieldImm w) := by
    intro op hw hrange
    unfold Machine.execute
    simp only
    rw [hw, if_neg (by bv_omega), if_neg (by bv_omega), if_neg (by bv_omega),
      if_neg (by bv_omega), if_neg (by bv_omega), if_pos hrange]
  have ha : c.get (fieldS1 w).toNat = (m.rd (fieldS1 w)).toNat := hm.get (fieldS1_lt w)
  have hzero := bit_zero (m.rd (fieldS1 w)) (fieldD w).toNat
  have hone := bit_one (m.rd (fieldS1 w)) (fieldD w).toNat
  rw [← ha] at hzero hone
  rw [targetOf_branch16]
  simp only [BITBR, List.mem_cons, Prod.mk.injEq, List.not_mem_nil, or_false] at hop
  rcases hop with h | h | h | h
  all_goals
    obtain ⟨hop, rfl⟩ := h
    rw [hop] at hof
    rw [hbb _ hof (by decide)]
  · exact branch_same hm hzero _ false
  · exact branch_same hm hzero _ true
  · exact branch_same hm hone _ false
  · exact branch_same hm hone _ true

theorem execBcnd_same (hm : Matches c m) {w : U32} {mn : Mnemonic} (h : Host)
    (hop : ((w >>> 26).toNat, mn) ∈ CONDBR) :
    SameEffect m mn.delayed
      (c.execute ⟨m.cpu.pc, w, mn, some (targetOf m.cpu.pc (signed (w &&& 0xFFFF).toNat 16))⟩ w)
      (m.execute h w m.cpu.pc) := by
  have hof : w >>> 26 = BitVec.ofNat 32 (w >>> 26).toNat := by
    rw [BitVec.ofNat_toNat, BitVec.setWidth_eq]
  have hbcnd : ∀ op : U32, w >>> 26 = op → op = 0x3A ∨ op = 0x3B → m.execute h w m.cpu.pc =
      m.execBcnd m.cpu.pc op (fieldD w) (m.rd (fieldS1 w)) (fieldImm w) := by
    intro op hw hrange
    unfold Machine.execute
    simp only
    rw [hw, if_neg (by bv_omega), if_neg (by bv_omega), if_neg (by bv_omega),
      if_neg (by bv_omega), if_neg (by bv_omega), if_neg (by bv_omega), if_pos hrange]
  have ha : c.get (fieldS1 w).toNat = (m.rd (fieldS1 w)).toNat := hm.get (fieldS1_lt w)
  have hcond : M88k.cond (fieldD w).toNat (c.get (fieldS1 w).toNat) = true ↔
      condTrue (fieldD w) (m.rd (fieldS1 w)) = true := by
    rw [ha, cond_toNat]
  rw [targetOf_branch16]
  simp only [CONDBR, List.mem_cons, Prod.mk.injEq, List.not_mem_nil, or_false] at hop
  rcases hop with h | h
  all_goals
    obtain ⟨hop, rfl⟩ := h
    rw [hop] at hof
    rw [hbcnd _ hof (by decide)]
  · exact branch_same hm hcond _ false
  · exact branch_same hm hcond _ true

theorem trap3C_same (hm : Matches c m) {w : U32} {mn : Mnemonic} (h : Host)
    (hop : w >>> 26 = 0x3C) (hsub : ((fieldSub w).toNat, mn) ∈ TRAP) :
    SameEffect m mn.delayed (c.execute ⟨m.cpu.pc, w, mn, none⟩ w) (m.execute h w m.cpu.pc) := by
  have hof : fieldSub w = BitVec.ofNat 32 (fieldSub w).toNat := by
    rw [BitVec.ofNat_toNat, BitVec.setWidth_eq]
  have ha : c.get (fieldS1 w).toNat = (m.rd (fieldS1 w)).toNat := hm.get (fieldS1_lt w)
  have hzero := bit_zero (m.rd (fieldS1 w)) (fieldD w).toNat
  have hone := bit_one (m.rd (fieldS1 w)) (fieldD w).toNat
  have hcond : M88k.cond (fieldD w).toNat (c.get (fieldS1 w).toNat) = true ↔
      condTrue (fieldD w) (m.rd (fieldS1 w)) = true := by
    rw [ha, cond_toNat]
  rw [← ha] at hzero hone
  rw [execute_field h _ hop]
  unfold exec3C
  simp only [TRAP, List.mem_cons, Prod.mk.injEq, List.not_mem_nil, or_false] at hsub
  rcases hsub with h | h | h
  all_goals
    obtain ⟨hsub, rfl⟩ := h
    rw [hsub] at hof
    rw [hof]
  · exact trap_same hm (hzero.trans decide_eq_true_iff.symm) _ false
  · exact trap_same hm (hone.trans decide_eq_true_iff.symm) _ false
  · exact trap_same hm hcond _ false

theorem execute_field_core (c : Core) {mn : Mnemonic} {k : Nat} (hmn : (k, mn) ∈ BITFIELD)
    (pc w : U32) :
    c.execute ⟨pc, w, mn, none⟩ w =
      if ((w >>> 26) &&& 0x3F).toNat = 0x3C then
        .ok (c.bitfield mn (fieldD w).toNat (c.get (fieldS1 w).toNat)
          ((w >>> 5) &&& 0x1F).toNat (w &&& 0x1F).toNat, none)
      else
        .ok (c.bitfield mn (fieldD w).toNat (c.get (fieldS1 w).toNat)
          ((c.get (fieldS2 w).toNat >>> 5) &&& 0x1F) (c.get (fieldS2 w).toNat &&& 0x1F), none) := by
  simp only [BITFIELD, List.mem_cons, Prod.mk.injEq, List.not_mem_nil, or_false] at hmn
  rcases hmn with ⟨-, rfl⟩ | ⟨-, rfl⟩ | ⟨-, rfl⟩ | ⟨-, rfl⟩ | ⟨-, rfl⟩ | ⟨-, rfl⟩ <;> rfl

theorem and_five_lt (v : U32) : (v &&& 31).toNat < 32 := by
  rw [BitVec.toNat_and]
  exact Nat.lt_of_le_of_lt Nat.and_le_right (by decide)

theorem field3C_same (hm : Matches c m) {w : U32} {mn : Mnemonic} (h : Host)
    (hop : w >>> 26 = 0x3C) (hsub : ((fieldSub w).toNat, mn) ∈ BITFIELD) :
    SameEffect m mn.delayed (c.execute ⟨m.cpu.pc, w, mn, none⟩ w) (m.execute h w m.cpu.pc) := by
  have htrap : ¬(fieldSub w = 0x34 ∨ fieldSub w = 0x36 ∨ fieldSub w = 0x3A) := by
    rintro (heq | heq | heq) <;> rw [heq] at hsub <;> simp [BITFIELD] at hsub
  rw [execute_field_core c hsub, execute_field h _ hop, hm.get (fieldS1_lt w), hop]
  unfold exec3C
  simp only
  rw [if_pos (by decide), if_neg htrap]
  exact .next (bitfield_same hm (fieldD_lt w) _ (and_five_lt _) (and_five_lt _) hsub)

theorem fieldTri_same (hm : Matches c m) {w : U32} {mn : Mnemonic} (h : Host)
    (hop : w >>> 26 = 0x3D) (hsub : ((fieldSub w).toNat, mn) ∈ BITFIELD) :
    SameEffect m mn.delayed (c.execute ⟨m.cpu.pc, w, mn, none⟩ w) (m.execute h w m.cpu.pc) := by
  have hrange : 0x20 ≤ (fieldSub w).toNat ∧ (fieldSub w).toNat ≤ 0x2A := by
    simp only [BITFIELD, List.mem_cons, Prod.mk.injEq, List.not_mem_nil, or_false] at hsub
    omega
  have hwidth : ∀ b : U32, (b.toNat >>> 5) &&& 0x1F = ((b >>> 5) &&& 31).toNat := by
    intro b
    rw [BitVec.toNat_and, BitVec.toNat_ushiftRight]
    rfl
  have hoffset : ∀ b : U32, b.toNat &&& 0x1F = (b &&& 31).toNat := by
    intro b
    rw [BitVec.toNat_and]
    rfl
  rw [execute_field_core c hsub, execute_triadic h _ hop, hm.get (fieldS1_lt w),
    hm.get (fieldS2_lt w), hop, hwidth, hoffset]
  unfold exec3D
  simp only
  rw [if_neg (by decide), if_neg (by bv_omega), if_neg (by bv_omega), if_pos (by bv_omega)]
  exact .next (bitfield_same hm (fieldD_lt w) _ (and_five_lt _) (and_five_lt _) hsub)

/-! ## Arithmetic, dispatched -/

theorem execute_alu_core (c : Core) {mn : Mnemonic} {k : Nat} (hmn : (k, mn) ∈ ALU_IMM ++ TRI_ALU)
    (pc w : U32) :
    c.execute ⟨pc, w, mn, none⟩ w =
      (c.alu mn (((w >>> 26) &&& 0x3F).toNat < 0x20) (c.get (fieldS1 w).toNat)
        (c.operand w)).map fun v => (c.set (fieldD w).toNat v, none) := by
  simp only [ALU_IMM, TRI_ALU, List.cons_append, List.nil_append, List.mem_cons, Prod.mk.injEq,
    List.not_mem_nil, or_false] at hmn
  rcases hmn with h | h | h | h | h | h | h | h | h | h | h | h | h | h | h | h |
    h | h | h | h | h | h | h | h | h | h | h | h | h | h
  all_goals
    obtain ⟨-, rfl⟩ := h
    rfl

theorem fieldImm_lt (w : U32) : (fieldImm w).toNat < 2 ^ 16 := by
  rw [fieldImm, BitVec.toNat_and]
  exact Nat.lt_of_le_of_lt Nat.and_le_right (by decide)

theorem immediate_same (hm : Matches c m) {w : U32} {mn : Mnemonic} (h : Host)
    (hop : ((w >>> 26).toNat, mn) ∈ ALU_IMM) :
    SameEffect m mn.delayed (c.execute ⟨m.cpu.pc, w, mn, none⟩ w) (m.execute h w m.cpu.pc) := by
  have hrange : 0x10 ≤ (w >>> 26).toNat ∧ (w >>> 26).toNat < 0x20 := by
    simp only [ALU_IMM, List.mem_cons, Prod.mk.injEq, List.not_mem_nil, or_false] at hop
    omega
  have hoperand : c.operand w = (fieldImm w).toNat := by
    rw [Core.operand, opcode_and, if_pos hrange.2]
  rw [execute_alu_core c (List.mem_append_left _ hop),
    execute_immediate h _ (by bv_omega) (by bv_omega), hoperand, opcode_and,
    decide_eq_true hrange.2, hm.get (fieldS1_lt w)]
  exact execImm_same hm (fieldD_lt w) _ (fieldImm_lt w) hop _

theorem triadic_same (hm : Matches c m) {w : U32} {mn : Mnemonic} (h : Host)
    (hop : w >>> 26 = 0x3D) (hsub : ((fieldSub w).toNat, mn) ∈ TRI_ALU) :
    SameEffect m mn.delayed (c.execute ⟨m.cpu.pc, w, mn, none⟩ w) (m.execute h w m.cpu.pc) := by
  have hrange : 0x10 ≤ (fieldSub w).toNat ∧ (fieldSub w).toNat < 0x20 := by
    simp only [TRI_ALU, List.mem_cons, Prod.mk.injEq, List.not_mem_nil, or_false] at hsub
    omega
  have hform : ¬((w >>> 26) &&& 0x3F).toNat < 0x20 := by
    rw [hop]
    decide
  have hoperand : c.operand w = (m.rd (fieldS2 w)).toNat := by
    rw [Core.operand, if_neg hform, hm.get (fieldS2_lt w)]
  rw [execute_alu_core c (List.mem_append_right _ hsub), execute_triadic h _ hop, hoperand,
    decide_eq_false hform, hm.get (fieldS1_lt w)]
  unfold exec3D
  simp only
  rw [if_neg (by bv_omega), if_pos (by bv_omega)]
  exact execTri_same hm (fieldD_lt w) _ _ hsub _

/-! ## Jumps and control registers -/

theorem jump_same (hm : Matches c m) {w : U32} {mn : Mnemonic} (h : Host)
    (hop : w >>> 26 = 0x3D) (hsub : ((fieldSub w).toNat, mn) ∈ TRI_JUMP) :
    SameEffect m mn.delayed (c.execute ⟨m.cpu.pc, w, mn, none⟩ w) (m.execute h w m.cpu.pc) := by
  have hof : fieldSub w = BitVec.ofNat 32 (fieldSub w).toNat := by
    rw [BitVec.ofNat_toNat, BitVec.setWidth_eq]
  have htarget : (c.get (fieldS2 w).toNat).ldiff 3 = (m.rd (fieldS2 w) &&& ~~~3).toNat := by
    rw [hm.get (fieldS2_lt w)]
    exact toNat_and_not _ 3
  have hafter : ∀ k : Nat, BitVec.ofNat 32 (c.pc + k) = m.cpu.pc + BitVec.ofNat 32 k := by
    intro k
    rw [hm.pc, BitVec.ofNat_add, BitVec.ofNat_toNat, BitVec.setWidth_eq]
  have hjump : ∀ sub : U32, fieldSub w = sub → 0x30 ≤ sub ∧ sub ≤ 0x33 →
      m.execute h w m.cpu.pc =
        (if 0x32 ≤ sub then m.link m.cpu.pc (sub &&& 1 = 1) else m,
          .jump (m.rd (fieldS2 w) &&& ~~~3) (sub &&& 1 = 1)) := by
    intro sub heq hrange
    rw [execute_triadic h _ hop]
    unfold exec3D
    simp only
    rw [heq, if_neg (by bv_omega), if_neg (by bv_omega), if_neg (by bv_omega),
      if_neg (by bv_omega), if_neg (by bv_omega), if_pos hrange]
  simp only [TRI_JUMP, List.mem_cons, Prod.mk.injEq, List.not_mem_nil, or_false] at hsub
  rcases hsub with h | h | h | h
  all_goals
    obtain ⟨hsub, rfl⟩ := h
    rw [hsub] at hof
    rw [hjump _ hof (by decide)]
    simp only [Core.execute, Core.control, Mnemonic.memOps, htarget]
  · exact .jump hm _
  · exact .jump hm _
  · exact .jump (link_same hm _ _ (hafter 4)) _
  · exact .jump (link_same hm _ _ (hafter 8)) _

/-- `ldcr`, `stcr` and `xcr`.  Their floating-point namesakes, which the reference
core refuses, are left out. -/
theorem control_same (hm : Matches c m) {w : U32} {mn : Mnemonic} (h : Host)
    (hop : w >>> 26 = 0x20) (hsub : (((w >>> 11) &&& 0x1F).toNat, mn) ∈ CTLREG)
    (hplain : mn.floating = false) :
    SameEffect m mn.delayed (c.execute ⟨m.cpu.pc, w, mn, none⟩ w) (m.execute h w m.cpu.pc) := by
  have hexec : m.execute h w m.cpu.pc = m.execCr w (fieldD w) (m.rd (fieldS1 w)) := by
    unfold Machine.execute
    simp only
    rw [hop, if_neg (by decide), if_neg (by decide), if_pos rfl]
  rw [hexec]
  unfold execCr
  simp only [CTLREG, List.mem_cons, Prod.mk.injEq, List.not_mem_nil, or_false] at hsub
  rcases hsub with h | h | h | h | h | h
  all_goals
    obtain ⟨hsub, rfl⟩ := h
    first
      | exact absurd hplain (by decide)
      | simp only [Core.execute, Core.control, Mnemonic.memOps]
  · rw [show ((w >>> 11) &&& 31).toNat = 8 from hsub]
    refine .next (hm.set (fieldD_lt w) ?_)
    rw [hm.cr]
    exact ofInt_toNat _
  · rw [show ((w >>> 11) &&& 31).toNat = 16 from hsub, hm.get (fieldS1_lt w)]
    exact .next (hm.setCr _ _)
  · rw [show ((w >>> 11) &&& 31).toNat = 24 from hsub, hm.get (fieldS1_lt w)]
    refine .next ((hm.setCr _ _).set (fieldD_lt w) ?_)
    rw [hm.cr]
    exact ofInt_toNat _

end Instructions

end Nx88
