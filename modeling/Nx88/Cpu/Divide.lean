import Nx88.Cpu.Undefined
/-!
# Integer division

`divu` and `div` in the immediate and the register form.  The signed quotient
is computed by a division of the host, which C leaves undefined for the one
pair of operands whose quotient is no 32-bit integer.
-/

namespace Nx88

/-! ## Quotients -/

def quotient (signed : Bool) (a b : U32) : Int :=
  if signed then a.toInt.tdiv b.toInt else (a.toNat / b.toNat : Nat)

/-- What the reference interpreter stores: it divides the magnitudes and puts
the sign back, and its registers keep 32 bits. -/
def referenceDiv (signed : Bool) (a b : U32) : U32 :=
  let q : Int := (a.toInt.natAbs / b.toInt.natAbs : Nat)
  BitVec.ofInt 32 <|
    if signed then if decide (a.toInt < 0) ≠ decide (b.toInt < 0) then -q else q
    else (a.toNat / b.toNat : Nat)

/-- C defines `x / y` on `int` when `y` is not zero and the quotient is an `int`. -/
def HostDivides (a b : U32) : Prop :=
  b ≠ 0 ∧ -2 ^ 31 ≤ a.toInt.tdiv b.toInt ∧ a.toInt.tdiv b.toInt < 2 ^ 31

theorem signed_magnitudes (x y : Int) :
    (if decide (x < 0) ≠ decide (y < 0) then -((x.natAbs / y.natAbs : Nat) : Int)
      else ((x.natAbs / y.natAbs : Nat) : Int)) = x.tdiv y := by
  have hmag : ((x.natAbs / y.natAbs : Nat) : Int) = |x|.tdiv |y| := by
    rw [Int.natCast_div, Int.natCast_natAbs, Int.natCast_natAbs,
      Int.tdiv_eq_ediv_of_nonneg (abs_nonneg x)]
  rw [hmag]
  by_cases hx : x < 0
  · by_cases hy : y < 0
    · rw [if_neg (by simp [hx, hy]), abs_of_neg hx, abs_of_neg hy, Int.neg_tdiv, Int.tdiv_neg,
        neg_neg]
    · rw [if_pos (by simp [hx, hy]), abs_of_neg hx, abs_of_nonneg (not_lt.1 hy), Int.neg_tdiv,
        neg_neg]
  · by_cases hy : y < 0
    · rw [if_pos (by simp [hx, hy]), abs_of_nonneg (not_lt.1 hx), abs_of_neg hy, Int.tdiv_neg,
        neg_neg]
    · rw [if_neg (by simp [hx, hy]), abs_of_nonneg (not_lt.1 hx), abs_of_nonneg (not_lt.1 hy)]

theorem referenceDiv_eq (signed : Bool) (a b : U32) :
    referenceDiv signed a b = BitVec.ofInt 32 (quotient signed a b) := by
  unfold referenceDiv quotient
  cases signed with
  | false => rfl
  | true =>
      simp only [if_true]
      exact congrArg (BitVec.ofInt 32) (signed_magnitudes a.toInt b.toInt)

theorem sdiv_eq_quotient (a b : U32) : a.sdiv b = BitVec.ofInt 32 (quotient true a b) := by
  apply BitVec.eq_of_toInt_eq
  rw [BitVec.toInt_sdiv, BitVec.toInt_ofInt]
  rfl

theorem udiv_eq_quotient (a b : U32) : a / b = BitVec.ofInt 32 (quotient false a b) := by
  apply BitVec.eq_of_toNat_eq
  have hlt : a.toNat / b.toNat < 2 ^ 32 := Nat.lt_of_le_of_lt (Nat.div_le_self _ _) a.isLt
  unfold quotient
  rw [BitVec.toNat_udiv, if_neg (by decide), BitVec.ofInt_natCast, BitVec.toNat_ofNat,
    Nat.mod_eq_of_lt hlt]

theorem hostDivides_iff {a b : U32} (hb : b ≠ 0) :
    HostDivides a b ↔ ¬(a = 0x80000000 ∧ b = 0xFFFFFFFF) := by
  unfold HostDivides
  rw [and_iff_right hb]
  constructor
  · rintro ⟨-, hlt⟩ ⟨rfl, rfl⟩
    exact absurd hlt (by decide)
  · intro hne
    have hor : a ≠ BitVec.intMin 32 ∨ b ≠ -1#32 := by
      by_cases ha : a = BitVec.intMin 32
      · exact .inr fun hminus => hne ⟨ha, hminus⟩
      · exact .inl ha
    rw [← BitVec.toInt_sdiv_of_ne_or_ne a b hor]
    exact ⟨BitVec.le_toInt _, BitVec.toInt_lt⟩

/-! ## The instructions -/

namespace Machine

/-- The word is a division of `a` by `b`, with a 16-bit immediate or with a
register as divisor. -/
structure DivInsn (m : Machine) (w : U32) (signed : Bool) (a b : U32) : Prop where
  dividend : m.rd (fieldS1 w) = a
  form : (w >>> 26 = (if signed then 0x1E else 0x1A) ∧ fieldImm w = b) ∨
    (w >>> 26 = 0x3D ∧ fieldSub w = (if signed then 0x1E else 0x1A) ∧ m.rd (fieldS2 w) = b)

theorem execute_div {m : Machine} {w a b : U32} {signed : Bool} (h : Host) (pc : U32)
    (hinsn : m.DivInsn w signed a b) :
    m.execute h w pc =
      if b = 0 then (m, divzero)
      else (m.wr (fieldD w) (BitVec.ofInt 32 (quotient signed a b)), .next) := by
  rcases hinsn.form with ⟨hop, hb⟩ | ⟨hop, hsub, hb⟩
  · cases signed with
    | false =>
        rw [execute_immediate h pc (by rw [hop]; decide) (by rw [hop]; decide), hop,
          hinsn.dividend, hb, ← udiv_eq_quotient]
        rfl
    | true =>
        rw [execute_immediate h pc (by rw [hop]; decide) (by rw [hop]; decide), hop,
          hinsn.dividend, hb, ← sdiv_eq_quotient]
        rfl
  · rw [execute_triadic h pc hop]
    unfold exec3D
    simp only
    cases signed with
    | false =>
        rw [hsub, hb, hinsn.dividend, if_neg (by decide), if_pos (by decide), ← udiv_eq_quotient]
        rfl
    | true =>
        rw [hsub, hb, hinsn.dividend, if_neg (by decide), if_pos (by decide), ← sdiv_eq_quotient]
        rfl

/-- What the step of a division promises. -/
structure DividesExactly (m : Machine) (h : Host) (w : U32) (signed : Bool) (a b : U32) :
    Prop where
  traps : (m.step h).2 = true ∧ (m.step h).1.trapVector = 6 ↔ b = 0
  stores : b ≠ 0 → ∃ k, Peeked m k ∧ (m.step h).1 =
    (k.tick.wr (fieldD w) (BitVec.ofInt 32 (quotient signed a b))).sequence m.cpu.pc .next
  reference : b ≠ 0 → referenceDiv signed a b = BitVec.ofInt 32 (quotient signed a b)
  /-- where the host's signed division is evaluated, C defines it -/
  defined : signed = true → b ≠ 0 → HostDivides a b

theorem step_div {m : Machine} {h : Host} {w a b : U32} {signed : Bool}
    (hfetch : m.Fetches h w) (hinsn : m.DivInsn w signed a b) :
    ∃ k, Peeked m k ∧ m.step h =
      if b = 0 then ({ k.tick with trapTaken := true, trapVector := 6, trapPc := m.cpu.pc }, true)
      else ((k.tick.wr (fieldD w) (BitVec.ofInt 32 (quotient signed a b))).sequence m.cpu.pc .next,
        false) := by
  obtain ⟨hquiet, k, hhooks, hclear, rfl⟩ := hfetch
  have hpeek := (hooks_ok hquiet hhooks).2.2
  have hpeeked := hpeek.trans (fetch_peeked k)
  have hrd : ∀ n, k.fetch.2.tick.rd n = m.rd n := by
    intro n
    change (k.fetch.2.tick.cpu.rd n) = m.cpu.rd n
    unfold tick
    rw [hpeeked.cpu]
    rfl
  have hinsn' : k.fetch.2.tick.DivInsn k.fetch.1 signed a b :=
    ⟨(hrd _).trans hinsn.dividend, by rw [hrd]; exact hinsn.form⟩
  have hstep : m.step h = k.exec h := by
    unfold step
    rw [hhooks]
  refine ⟨k.fetch.2, hpeeked, ?_⟩
  rw [hstep, exec_eq, if_neg (by rw [hclear]; decide), execute_div h _ hinsn', hpeek.cpu]
  split
  · rfl
  · exact finish_done _ (fun _ hflow => (nomatch hflow)) hclear

/-- A division keeps its promises exactly when it is not the signed one whose
quotient no register holds. -/
theorem step_divides_iff (m : Machine) (h : Host) (w a b : U32) (signed : Bool)
    (hfetch : m.Fetches h w) (hinsn : m.DivInsn w signed a b) :
    m.DividesExactly h w signed a b ↔
      ¬(signed = true ∧ a = 0x80000000 ∧ b = 0xFFFFFFFF) := by
  constructor
  · rintro hdiv ⟨hsigned, rfl, rfl⟩
    exact (hostDivides_iff (by decide)).1 (hdiv.defined hsigned (by decide)) ⟨rfl, rfl⟩
  · intro hok
    obtain ⟨k, hpeek, hstep⟩ := step_div hfetch hinsn
    refine ⟨?_, fun hb => ⟨k, hpeek, ?_⟩, fun _ => referenceDiv_eq signed a b, fun hsigned hb => ?_⟩
    · rw [hstep]
      by_cases hb : b = 0
      · rw [if_pos hb]
        exact ⟨fun _ => hb, fun _ => ⟨rfl, rfl⟩⟩
      · rw [if_neg hb]
        exact ⟨fun htrap => (nomatch htrap.1), fun hzero => absurd hzero hb⟩
    · rw [hstep, if_neg hb]
    · exact (hostDivides_iff hb).2 fun hpair => hok ⟨hsigned, hpair⟩

def dividing (a b : U32) : Machine := ((reaching 0xC0001000 0x1000 0xF4227803).wr 2 a).wr 3 b

theorem dividing_fetches {a b : U32}
    (hfetched : (dividing a b).fetch.1 = 0xF4227803)
    (hclear : (dividing a b).fetch.2.ufault.pending = false) :
    (dividing a b).Fetches Host.blank 0xF4227803 := by
  have hquiet : (dividing a b).Quiet Host.blank :=
    quiet_elsewhere (m := dividing a b) _ (show 0xC0001000 ∉ interceptPcs by decide) rfl
      (show (0xC0001000 : U32) ≠ _ by decide) (show (0xC0001000 : U32) ≠ _ by decide)
  exact ⟨hquiet, _, hooks_noClock hquiet rfl, hclear, hfetched⟩

theorem dividing_insn (a b : U32) : (dividing a b).DivInsn 0xF4227803 true a b :=
  ⟨rfl, .inr ⟨by decide, by decide, rfl⟩⟩

theorem dividing_seven :
    (dividing (-7) 2).DividesExactly Host.blank 0xF4227803 true (-7) 2 :=
  (step_divides_iff (dividing (-7) 2) Host.blank 0xF4227803 (-7) 2 true
    (dividing_fetches (by decide +kernel) (by decide +kernel)) (dividing_insn _ _)).2
    fun h => absurd h.2.1 (by decide)

/-- The smallest integer divided by -1 has no quotient, and nothing looks for it. -/
theorem dividing_overflows : ¬∀ (m : Machine) (h : Host) (w a b : U32) (signed : Bool),
    m.Fetches h w → m.DivInsn w signed a b → m.DividesExactly h w signed a b := by
  intro hall
  have hdiv := hall (dividing 0x80000000 0xFFFFFFFF) Host.blank 0xF4227803 0x80000000 0xFFFFFFFF
    true (dividing_fetches (by decide +kernel) (by decide +kernel)) (dividing_insn _ _)
  exact (hostDivides_iff (by decide)).1 (hdiv.defined rfl (by decide)) ⟨rfl, rfl⟩

end Machine

end Nx88
