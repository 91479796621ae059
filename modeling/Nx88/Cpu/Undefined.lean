import Nx88.Cpu.Abort
/-!
# Undefined encodings

The words that the reference decoder rejects, and what the decoder of the
emulator makes of them.  Most stop the machine with the emulator-gap vector.
The switch over bit fields has no default arm and the one over conditions answers
no by default, and there the word does nothing and execution runs on.
-/

namespace Nx88

namespace M88k

/-! ## What the tables reject -/

theorem lookup_unanswered {table : List (Nat × Mnemonic)} {k : Nat}
    (h : ∀ mn, table.lookup k = some mn → False) : ∀ p ∈ table, k ≠ p.1 := by
  have hnone := Option.eq_none_iff_forall_ne_some.2 h
  intro p hp
  have hne := List.lookup_eq_none_iff.1 hnone p hp
  simpa using hne

/-- The ways a word can be rejected. -/
inductive Rejected (w : U32) : Prop where
  | control (op : w >>> 26 = 0x20) (sub : CTLREG.lookup ((w >>> 11) &&& 0x1F).toNat = none)
  | float (op : w >>> 26 = 0x21) (sub : FPU.lookup ((w >>> 11) &&& 0x1F).toNat = none)
  | condition (op : w >>> 26 = 0x3A ∨ w >>> 26 = 0x3B)
      (cond : BCND.contains ((w >>> 21) &&& 0x1F).toNat = false)
  | bitfield (op : w >>> 26 = 0x3C) (trap : TRAP.lookup ((w >>> 10) &&& 0x3F).toNat = none)
      (field : BITFIELD.lookup ((w >>> 10) &&& 0x3F).toNat = none)
  | triadic (op : w >>> 26 = 0x3D) (sub : TRIADIC.lookup ((w >>> 10) &&& 0x3F).toNat = none)
  | opcode (op : (0x22 : U32) ≤ w >>> 26 ∧ w >>> 26 ≤ (0x2F : U32) ∨ w >>> 26 = 0x38 ∨
      w >>> 26 = 0x39 ∨ (0x3E : U32) ≤ w >>> 26)

theorem opcode_unnamed {k : Nat} (hlt : k < 64) (hload : ∀ mn, LOAD_STORE.lookup k = some mn → False)
    (halu : ∀ mn, ALU_IMM.lookup k = some mn → False) (hcr : ¬k = 0x20) (hfpu : ¬k = 0x21)
    (hbr : ∀ mn, UNCOND.lookup k = some mn → False)
    (hbb : ∀ mn, BITBR.lookup k = some mn → False)
    (hcond : ∀ mn, CONDBR.lookup k = some mn → False) (h3C : ¬k = 0x3C) (h3D : ¬k = 0x3D) :
    0x22 ≤ k ∧ k ≤ 0x2F ∨ k = 0x38 ∨ k = 0x39 ∨ 0x3E ≤ k := by
  have h₁ := lookup_unanswered hload
  have h₂ := lookup_unanswered halu
  have h₃ := lookup_unanswered hbr
  have h₄ := lookup_unanswered hbb
  have h₅ := lookup_unanswered hcond
  simp only [LOAD_STORE, ALU_IMM, UNCOND, BITBR, CONDBR, List.forall_mem_cons] at h₁ h₂ h₃ h₄ h₅
  omega

theorem condbr_key {k : Nat} {mn : Mnemonic} (h : CONDBR.lookup k = some mn) :
    k = 0x3A ∨ k = 0x3B := by
  by_contra hne
  rw [not_or] at hne
  have hnone : CONDBR.lookup k = none := by
    rw [List.lookup_eq_none_iff]
    simp only [CONDBR, List.forall_mem_cons, bne_iff_ne]
    exact ⟨hne.1, hne.2, fun p hp => (nomatch hp)⟩
  rw [hnone] at h
  cases h

theorem rejected_of_decode {w pc : U32} (h : decode w pc = none) : Rejected w := by
  have hlt := Machine.opcode_lt w
  have hop : ∀ {n : Nat}, n < 2 ^ 32 → (w >>> 26).toNat = n → w >>> 26 = BitVec.ofNat 32 n :=
    fun hn hw => BitVec.eq_of_toNat_eq (by rw [hw, BitVec.toNat_ofNat, Nat.mod_eq_of_lt hn])
  unfold decode at h
  simp only at h
  rw [Machine.opcode_and] at h
  split at h
  · cases h
  rename_i hload
  split at h
  · cases h
  rename_i halu
  split at h
  · rename_i h20
    exact .control (hop (by decide) h20) (Option.map_eq_none_iff.1 h)
  rename_i h20
  split at h
  · rename_i h21
    exact .float (hop (by decide) h21) (Option.map_eq_none_iff.1 h)
  rename_i h21
  split at h
  · cases h
  rename_i hbr
  split at h
  · cases h
  rename_i hbb
  split at h
  · rename_i hcond
    split at h
    · cases h
    · rename_i hbcnd
      exact .condition ((condbr_key hcond).imp (hop (by decide)) (hop (by decide)))
        (Bool.eq_false_iff.2 hbcnd)
  rename_i hcond
  split at h
  · rename_i h3C
    split at h
    · cases h
    · rename_i htrap
      exact .bitfield (hop (by decide) h3C) (Option.eq_none_iff_forall_ne_some.2 htrap)
        (Option.map_eq_none_iff.1 h)
  rename_i h3C
  split at h
  · rename_i h3D
    exact .triadic (hop (by decide) h3D) (Option.map_eq_none_iff.1 h)
  · rename_i h3D
    refine .opcode ?_
    have hnat := opcode_unnamed hlt hload halu h20 h21 hbr hbb hcond h3C h3D
    simp only [BitVec.le_def, ← BitVec.toNat_inj]
    exact hnat

end M88k

namespace Machine

/-! ## What the emulator makes of them -/

/-- The two switches that let a word pass: the bit fields, in both forms, which have
no default arm, and the condition of `bcnd`, which by default does not hold. -/
def Unchecked (w : U32) : Prop :=
  w >>> 26 = 0x3A ∨ w >>> 26 = 0x3B ∨ w >>> 26 = 0x3C ∨
    w >>> 26 = 0x3D ∧ 0x20 ≤ fieldSub w ∧ fieldSub w ≤ 0x2A

instance (w : U32) : Decidable (Unchecked w) := by
  unfold Unchecked
  infer_instance

/-- `ff1` and `ff0` under the sub-opcodes that only the emulator gives them. -/
def FindFirst (w : U32) : Prop := w >>> 26 = 0x3D ∧ (fieldSub w = 0x3A ∨ fieldSub w = 0x3B)

instance (w : U32) : Decidable (FindFirst w) := by
  unfold FindFirst
  infer_instance

theorem lookup_ne {table : List (Nat × M88k.Mnemonic)} {k : Nat} (h : table.lookup k = none) :
    ∀ p ∈ table, k ≠ p.1 :=
  M88k.lookup_unanswered fun mn hmn => by rw [h] at hmn; cases hmn

theorem execCr_rejected (m : Machine) {w : U32} (D a : U32)
    (h : M88k.CTLREG.lookup ((w >>> 11) &&& 0x1F).toNat = none) :
    m.execCr w D a = (m, badinsn) := by
  have hne := lookup_ne h
  simp only [M88k.CTLREG, List.forall_mem_cons] at hne
  unfold execCr
  simp only
  split
  case h_7 => rfl
  all_goals omega

theorem execFpu_rejected (m : Machine) (h : Host) {w : U32} (D S1 : U32)
    (hfop : M88k.FPU.lookup ((w >>> 11) &&& 0x1F).toNat = none) :
    m.execFpu h w D S1 = (m, badinsn) := by
  have hne := lookup_ne hfop
  simp only [M88k.FPU, List.forall_mem_cons] at hne
  unfold execFpu
  simp only
  split
  case h_11 => rfl
  all_goals omega

theorem condTrue_rejected {cond : U32} (a : U32) (h : M88k.BCND.contains cond.toNat = false) :
    condTrue cond a = false := by
  have hne : ∀ k ∈ M88k.BCND, cond.toNat ≠ k := by
    intro k hk heq
    rw [heq] at h
    exact absurd (List.contains_iff_mem.2 hk) (by rw [h]; decide)
  simp only [M88k.BCND, List.forall_mem_cons] at hne
  unfold condTrue
  split
  case h_7 => rfl
  all_goals omega

theorem bitfield_rejected (m : Machine) {sub : U32} (D a width offset : U32)
    (h : M88k.BITFIELD.lookup sub.toNat = none) : m.bitfield sub D a width offset = m := by
  have hne := lookup_ne h
  simp only [M88k.BITFIELD, List.forall_mem_cons] at hne
  have hvalue : bitfieldValue sub a width offset = none := by
    unfold bitfieldValue
    simp only
    split
    case h_7 => rfl
    all_goals omega
  unfold bitfield
  rw [hvalue]

theorem exec3C_rejected (m : Machine) {w : U32} (D a : U32)
    (htrap : M88k.TRAP.lookup (fieldSub w).toNat = none)
    (hfield : M88k.BITFIELD.lookup (fieldSub w).toNat = none) :
    m.exec3C w D a = (m, .next) := by
  have hne := lookup_ne htrap
  simp only [M88k.TRAP, List.forall_mem_cons] at hne
  unfold exec3C
  simp only
  rw [if_neg, bitfield_rejected m D a _ _ hfield]
  rintro (h | h | h)
  · exact hne.1 (congrArg BitVec.toNat h)
  · exact hne.2.1 (congrArg BitVec.toNat h)
  · exact hne.2.2.1 (congrArg BitVec.toNat h)

theorem execTri_rejected (m : Machine) {sub : U32} (D a b : U32)
    (h : sub = 0x12 ∨ sub = 0x13) : m.execTri sub D a b = (m, badinsn) := by
  rcases h with rfl | rfl
  · rfl
  · rfl

theorem triadic_unnamed {sub : U32} (h : M88k.TRIADIC.lookup sub.toNat = none)
    (hff : ¬(sub = 0x3A ∨ sub = 0x3B)) :
    ¬sub < 0x10 ∧ (sub < 0x20 → sub = 0x12 ∨ sub = 0x13) ∧
      M88k.BITFIELD.lookup sub.toNat = none ∧ ¬sub = 0x3A ∧ ¬sub = 0x3B ∧
      ¬(0x30 ≤ sub ∧ sub ≤ 0x33) ∧ ¬sub = 0x3F := by
  have hne := lookup_ne h
  simp only [M88k.TRIADIC, List.forall_mem_cons] at hne
  have hfield : M88k.BITFIELD.lookup sub.toNat = none := by
    rw [List.lookup_eq_none_iff]
    simp only [M88k.BITFIELD, List.forall_mem_cons, bne_iff_ne]
    exact ⟨by omega, by omega, by omega, by omega, by omega, by omega, fun p hp => (nomatch hp)⟩
  rw [not_or] at hff
  refine ⟨?_, ?_, hfield, hff.1, hff.2, ?_, ?_⟩
  · rw [BitVec.lt_def, show BitVec.toNat (0x10 : U32) = 16 from rfl]
    omega
  · rw [BitVec.lt_def, show BitVec.toNat (0x20 : U32) = 32 from rfl]
    intro hlt
    have hcases : sub.toNat = 18 ∨ sub.toNat = 19 := by omega
    exact hcases.imp (fun hs => BitVec.eq_of_toNat_eq hs) fun hs => BitVec.eq_of_toNat_eq hs
  · rw [BitVec.le_def, BitVec.le_def, show BitVec.toNat (0x30 : U32) = 48 from rfl,
      show BitVec.toNat (0x33 : U32) = 51 from rfl]
    omega
  · intro hs
    have hnat : sub.toNat = 63 := congrArg BitVec.toNat hs
    omega

theorem exec3D_rejected (m : Machine) {w : U32} (pc D a : U32)
    (hsub : M88k.TRIADIC.lookup (fieldSub w).toNat = none)
    (hff : ¬(fieldSub w = 0x3A ∨ fieldSub w = 0x3B)) :
    m.exec3D w pc D a =
      (m, if 0x20 ≤ fieldSub w ∧ fieldSub w ≤ 0x2A then .next else badinsn) := by
  obtain ⟨hmem, htri, hfield, hff1, hff0, hjump, hrte⟩ := triadic_unnamed hsub hff
  unfold exec3D
  simp only
  rw [if_neg hmem]
  by_cases hlow : fieldSub w < 0x20
  · rw [if_pos hlow, execTri_rejected m D a _ (htri hlow), if_neg]
    exact fun hrange => absurd hlow (BitVec.not_lt.2 hrange.1)
  rw [if_neg hlow]
  by_cases hrange : 0x20 ≤ fieldSub w ∧ fieldSub w ≤ 0x2A
  · rw [if_pos hrange, if_pos hrange, bitfield_rejected m D a _ _ hfield]
  · rw [if_neg hrange, if_neg hrange, if_neg hff1, if_neg hff0, if_neg hjump, if_neg hrte]

/-- A rejected word either runs into the emulator-gap trap or does nothing at
all, depending on which switch it reaches. -/
theorem execute_rejected {m : Machine} {h : Host} {w pc : U32}
    (hrej : M88k.decode w pc = none) (hff : ¬FindFirst w) :
    m.execute h w pc = (m, if Unchecked w then .next else badinsn) := by
  unfold execute
  simp only
  cases M88k.rejected_of_decode hrej with
  | control hop hsub =>
    have hchecked : ¬Unchecked w := by
      unfold Unchecked
      simp [hop]
    rw [if_neg (c := Unchecked w) hchecked, hop]
    exact execCr_rejected m _ _ hsub
  | float hop hfop =>
    have hchecked : ¬Unchecked w := by
      unfold Unchecked
      simp [hop]
    rw [if_neg (c := Unchecked w) hchecked, hop]
    exact execFpu_rejected m h _ _ hfop
  | condition hop hcond =>
    have hbcnd : ∀ op, m.execBcnd pc op (fieldD w) (m.rd (fieldS1 w)) (fieldImm w) =
        (m, .next) := by
      intro op
      unfold execBcnd fieldD
      rw [condTrue_rejected _ hcond]
      rfl
    rw [if_pos (c := Unchecked w) (hop.imp_right .inl), hbcnd]
    rcases hop with hop | hop
    · rw [hop]
      rfl
    · rw [hop]
      rfl
  | bitfield hop htrap hfield =>
    rw [if_pos (c := Unchecked w) (.inr (.inr (.inl hop))), exec3C_rejected m _ _ htrap hfield, hop]
    rfl
  | triadic hop hsub =>
    have htri := exec3D_rejected m pc (fieldD w) (m.rd (fieldS1 w)) hsub
      (fun hcase => hff ⟨hop, hcase⟩)
    rw [htri]
    have hunchecked : Unchecked w ↔ 0x20 ≤ fieldSub w ∧ fieldSub w ≤ 0x2A := by
      unfold Unchecked
      rw [hop]
      simp
    rw [if_congr hunchecked rfl rfl, hop]
    rfl
  | opcode hop =>
    have hchecked : ¬Unchecked w := by
      unfold Unchecked
      bv_omega
    rw [if_neg (c := Unchecked w) hchecked, if_neg (by bv_omega), if_neg (by bv_omega),
      if_neg (by bv_omega), if_neg (by bv_omega), if_neg (by bv_omega), if_neg (by bv_omega),
      if_neg (by bv_omega), if_neg (by bv_omega), if_neg (by bv_omega)]

/-! ## The step -/

/-- The step gets past intercepts and interrupts and fetches the word `w`. -/
structure Fetches (m : Machine) (h : Host) (w : U32) : Prop where
  quiet : m.Quiet h
  fetched : ∃ k, m.hooks h = .ok k ∧ k.fetch.2.ufault.pending = false ∧ k.fetch.1 = w

/-- The step reports the emulator-gap trap at this instruction and changes
nothing. -/
structure StopsAtGap (m : Machine) (h : Host) : Prop where
  trapped : (m.step h).2 = true
  vector : (m.step h).1.trapVector = -1
  trapPc : (m.step h).1.trapPc = m.cpu.pc
  untouched : Untouched m (m.step h).1

theorem report_untouched (m : Machine) (vector pc : U32) :
    Untouched m { m with trapTaken := true, trapVector := vector, trapPc := pc } :=
  ⟨rfl, rfl, rfl, rfl, rfl, rfl, rfl⟩

theorem step_of_nothing {m k : Machine} {h : Host} (hhooks : m.hooks h = .ok k)
    (hclear : k.fetch.2.ufault.pending = false)
    (hexec : ∀ n : Machine, n.execute h k.fetch.1 k.cpu.pc = (n, .next)) :
    m.step h = (k.fetch.2.tick.sequence k.cpu.pc .next, false) := by
  unfold step
  rw [hhooks]
  show k.exec h = _
  rw [exec_eq, if_neg (by rw [hclear]; decide), hexec]
  exact finish_done _ (fun _ hflow => (nomatch hflow)) hclear

theorem step_of_gap {m k : Machine} {h : Host} (hhooks : m.hooks h = .ok k)
    (hclear : k.fetch.2.ufault.pending = false)
    (hexec : ∀ n : Machine, n.execute h k.fetch.1 k.cpu.pc = (n, badinsn)) :
    m.step h =
      ({ k.fetch.2.tick with trapTaken := true, trapVector := -1, trapPc := k.cpu.pc }, true) := by
  unfold step
  rw [hhooks]
  show k.exec h = _
  rw [exec_eq, if_neg (by rw [hclear]; decide), hexec]
  rfl

/-- A word that the reference decoder rejects stops the machine, unless it
reaches one of the switches without a default arm. -/
theorem step_undefined {m : Machine} {h : Host} {w : U32} (hfetch : m.Fetches h w)
    (hrej : M88k.decode w m.cpu.pc = none) (hff : ¬FindFirst w) :
    m.StopsAtGap h ↔ ¬Unchecked w := by
  obtain ⟨hquiet, k, hhooks, hclear, rfl⟩ := hfetch
  have hpeek := (hooks_ok hquiet hhooks).2.2
  rw [← hpeek.cpu] at hrej
  have hexec : ∀ n : Machine, n.execute h k.fetch.1 k.cpu.pc =
      (n, if Unchecked k.fetch.1 then .next else badinsn) :=
    fun n => execute_rejected hrej hff
  constructor
  · intro hstops hunchecked
    simp only [if_pos hunchecked] at hexec
    have htrapped := hstops.trapped
    rw [step_of_nothing hhooks hclear hexec] at htrapped
    cases htrapped
  · intro hchecked
    simp only [if_neg hchecked] at hexec
    have hstep := step_of_gap hhooks hclear hexec
    have huntouched := (hpeek.untouched.trans (fetch_peeked k).untouched).trans
      (tick_untouched k.fetch.2)
    refine ⟨?_, ?_, ?_, ?_⟩
    · rw [hstep]
    · rw [hstep]
    · rw [hstep]
      exact congrArg Cpu.pc hpeek.cpu
    · rw [hstep]
      exact huntouched.trans (report_untouched _ _ _)

theorem reaching_quiet (w : U32) : (reaching 0xC0001000 0x1000 w).Quiet Host.blank :=
  quiet_elsewhere (m := reaching 0xC0001000 0x1000 w) _
    (show 0xC0001000 ∉ interceptPcs by decide) rfl (show (0xC0001000 : U32) ≠ _ by decide)
    (show (0xC0001000 : U32) ≠ _ by decide)

theorem reaching_fetches {w : U32} (hfetched : (reaching 0xC0001000 0x1000 w).fetch.1 = w)
    (hclear : (reaching 0xC0001000 0x1000 w).fetch.2.ufault.pending = false) :
    (reaching 0xC0001000 0x1000 w).Fetches Host.blank w :=
  ⟨reaching_quiet w, _, hooks_noClock (reaching_quiet w) rfl, hclear, hfetched⟩

/-- Opcode `0x3F` is not assigned, and stops the machine. -/
theorem reaching_unassigned : (reaching 0xC0001000 0x1000 0xFC000000).StopsAtGap Host.blank :=
  (step_undefined (reaching_fetches (by decide +kernel) (by decide +kernel)) (by decide +kernel)
    (by decide)).2 (by decide)

/-- A bit-field operation with a sub-opcode that names none is executed as a no-op. -/
theorem reaching_bitfield :
    (reaching 0xC0001000 0x1000 0xF0208400).Fetches Host.blank 0xF0208400 ∧
      M88k.decode 0xF0208400 0xC0001000 = none ∧ ¬FindFirst 0xF0208400 ∧
      ((reaching 0xC0001000 0x1000 0xF0208400).step Host.blank).2 = false ∧
      ((reaching 0xC0001000 0x1000 0xF0208400).step Host.blank).1.cpu.pc = 0xC0001004 ∧
      ¬(reaching 0xC0001000 0x1000 0xF0208400).StopsAtGap Host.blank := by
  have hran : ((reaching 0xC0001000 0x1000 0xF0208400).step Host.blank).2 = false := by
    decide +kernel
  refine ⟨reaching_fetches (by decide +kernel) (by decide +kernel), by decide +kernel, by decide,
    hran, by decide +kernel, fun hstops => ?_⟩
  exact absurd (hran.symm.trans hstops.trapped) (by decide)

end Machine

end Nx88
