import Nx88.Tlb.Run
/-!
# User and supervisor translations

A user-space access belongs to the table that its mode names: the supervisor's
area pointer when PSR bit 31 is set, the user's otherwise.  The cache does not
record the mode an entry was filled in, so this holds as long as every entry an
access finds was filled in its own mode, or the two pointers are equal, and as
long as the fallbacks behind the mode's own table stay out of user space.
-/

namespace Nx88

open Lib Lib.Words

namespace Machine

/-! ## Through the mode's own table -/

def ownTable (m : Machine) (va : U32) (code : Bool) : Option (U32 × U32) :=
  m.mem.mmuWalk m.ktabBias (m.apr code m.aprOffset) va

/-- The descriptor words that answer consults. -/
def ownWords (m : Machine) (va : U32) (code : Bool) : List U32 :=
  (walkQuery m.ktabBias (m.apr code m.aprOffset) va).asked m.mem.r32

/-- The address and the fault record of a user-space access that is resolved
through the table its mode names and nothing else. -/
def tablesOutcome (m : Machine) (va : U32) (code : Bool) : U32 × UFault :=
  if m.apr code m.aprOffset &&& 1 = 0 then (va, m.ufault)
  else
    match m.ownTable va code with
    | some (pa, pd) =>
      if pd &&& PTE_WP ≠ 0 ∧ m.cfg.procexp = true ∧ m.xlatWrite = true ∧ ¬m.ufault.pending = true
      then (0, ⟨true, va, m.cpu.pc, false, true, 4⟩)
      else (pa, m.ufault)
    | none =>
      if m.cfg.procexp = true ∧ ¬m.ufault.pending = true
      then (0, ⟨true, va, m.cpu.pc, code, false, 4⟩)
      else (cphys true va, m.ufault)

/-- Two machines that a user-space access cannot tell apart: one pointer for
its mode, and one reading of the descriptors that hang off it. -/
structure SameView (m m' : Machine) (va : U32) (code : Bool) : Prop where
  apr : m'.apr code m'.aprOffset = m.apr code m.aprOffset
  words : ∀ a ∈ m.ownWords va code, m'.mem.r32 a = m.mem.r32 a
  bias : m'.ktabBias = m.ktabBias
  procexp : m'.cfg.procexp = m.cfg.procexp
  write : m'.xlatWrite = m.xlatWrite
  pc : m'.cpu.pc = m.cpu.pc
  fault : m'.ufault = m.ufault

theorem SameView.ownTable_eq {m m' : Machine} {va : U32} {code : Bool}
    (h : SameView m m' va code) : m'.ownTable va code = m.ownTable va code := by
  unfold ownTable
  rw [← answer_walkQuery, ← answer_walkQuery, h.bias, h.apr]
  exact Query.answer_congr h.words

theorem SameView.tablesOutcome_eq {m m' : Machine} {va : U32} {code : Bool}
    (h : SameView m m' va code) : m'.tablesOutcome va code = m.tablesOutcome va code := by
  unfold tablesOutcome
  rw [h.ownTable_eq, h.apr, h.procexp, h.write, h.pc, h.fault]

/-- The fallbacks add nothing to what the mode's own table maps. -/
def NoFallback (m : Machine) (va : U32) (code : Bool) : Prop :=
  m.ownTable va code = none →
    devmapLookup m.devmap va = 0 ∧
      m.mem.mmuWalk m.ktabBias ((if code then CODE_SEGTAB else DATA_SEGTAB) ||| 1) va = none

theorem walkFb_of_noFallback {m : Machine} {va : U32} {code : Bool} (hva : va < 0xC0000000)
    (h : m.NoFallback va code) :
    m.mem.walkFb m.ktabBias m.devmap (m.apr code m.aprOffset) va code = m.ownTable va code := by
  unfold Mem.walkFb
  cases hown : m.ownTable va code with
  | some r =>
    unfold ownTable at hown
    rw [hown]
  | none =>
    obtain ⟨hdev, hsyn⟩ := h hown
    have hlow : ¬0xE0000000 ≤ va := by
      rw [BitVec.lt_def] at hva
      rw [BitVec.le_def]
      simp at hva ⊢
      omega
    unfold ownTable at hown
    simp only [hown, hdev, hsyn, if_neg hlow]
    simp

/-- With fresh entries and no fallback in the way, `translate` resolves a
user-space address through the table its mode names. -/
theorem translate_tablesOutcome {m : Machine} {va : U32} {code : Bool}
    (hreal : m.mem.realmm = true) (hon : m.cfg.translateOn = true) (hva : va < 0xC0000000)
    (hfresh : m.Fresh va code) (hown : m.NoFallback va code) :
    ((m.translate va code).1, (m.translate va code).2.ufault) = m.tablesOutcome va code := by
  have hlow : ¬0xC0000000 ≤ va := BitVec.not_le.2 hva
  have huser : ¬(m.mem.realmm = true ∧ 0xC0000000 ≤ va) := fun h => hlow h.2
  have htranslate : m.translate va code = m.translateUser va code := by
    unfold translate
    rw [if_neg (by simp [hon]), if_neg huser]
  obtain ⟨haddr, hstate⟩ := translateUser_sameOutcome hlow hfresh
  have hfault := congrArg Machine.ufault hstate
  simp only [tlbFlush_ufault] at hfault
  rw [htranslate, haddr, hfault]
  have hmiss := not_hit_tlbFlush m va code
  unfold Hit at hmiss
  unfold translateUser tablesOutcome
  rw [show m.tlbFlush.apr code m.tlbFlush.aprOffset = m.apr code m.aprOffset from rfl]
  by_cases hoff : m.apr code m.aprOffset &&& 1 = 0
  · rw [if_pos hoff, if_pos hoff]
    rfl
  rw [if_neg hoff, if_neg hoff]
  simp only [if_neg hmiss]
  have hwalk := walkFb_of_noFallback hva hown
  cases htable : m.ownTable va code with
  | none =>
    rw [htable] at hwalk
    rw [missUser_none (m := m.tlbFlush) hwalk, tlbFlush_cfg, tlbFlush_ufault, tlbFlush_mem, hreal]
    split <;> rfl
  | some r =>
    rw [htable] at hwalk
    rw [missUser_some (m := m.tlbFlush) hwalk, Machine.guardWrite_outcome]
    simp only [decide_eq_true_eq]
    rfl

end Machine

/-! ## Over runs -/

namespace Traced

/-- A step keeps the modes apart: a user-space access finds only entries that
were filled in its own mode, unless both modes name one table, and no fallback
answers for its own table. -/
structure ModesOk (t : Traced) (op : Op) : Prop extends t.StepOk Op.StoresTo op where
  mode : ∀ va code write, op = .translate va code write → va < 0xC0000000 → t.m.Hit va code →
    (t.origin va code).aprOffset = t.m.aprOffset ∨
      t.m.apr code CMMU_SAPR = t.m.apr code CMMU_UAPR
  own : ∀ va code write, op = .translate va code write → va < 0xC0000000 →
    t.m.NoFallback va code

/-- Address translation as `sys` mode starts it, with nothing cached. -/
structure Booted (m : Machine) : Prop where
  empty : m.tlb = fun _ _ => ⟨0, 0⟩
  realmm : m.mem.realmm = true
  sysmode : m.cfg.sysmode = true
  translateOn : m.cfg.translateOn = true

/-- Reached from a booted machine by steps that keep the modes apart. -/
inductive Reached : Traced → Prop
  | boot {m : Machine} (filled : Bool → U32 → Machine) (h : Booted m) : Reached ⟨m, filled⟩
  | step {t : Traced} {op : Op} (h : Reached t) (hok : t.ModesOk op) : Reached (t.step op)

theorem cfg_step (t : Traced) (op : Op) (hreal : t.m.mem.realmm = true) :
    (t.step op).m.cfg = t.m.cfg := by
  by_cases htrans : op.IsTranslate
  · cases op with
    | translate va code write =>
      obtain ⟨tlb, u, s, hrun, -⟩ := Op.run_translated hreal va code write
      show ((Op.translate va code write).run t.m).cfg = t.m.cfg
      rw [hrun]
    | access sub D pa => exact absurd htrans id
    | poke a v => exact absurd htrans id
    | setCpu c => exact absurd htrans id
    | setFault u => exact absurd htrans id
    | reportTrap vector pc => exact absurd htrans id
    | mapDevice va pa => exact absurd htrans id
    | rebias b => exact absurd htrans id
  · exact (Op.run_other htrans t.m).2.1

theorem Reached.coherent {t : Traced} (h : Reached t) :
    t.Coherent ∧ t.m.cfg.translateOn = true := by
  induction h with
  | boot filled h => exact ⟨coherent_of_empty h.realmm h.sysmode h.empty, h.translateOn⟩
  | @step t op h hok ih =>
    refine ⟨coherent_step ih.1 hok.toStepOk, ?_⟩
    rw [cfg_step t op ih.1.realmm]
    exact ih.2

theorem EntryOk.aprFor_mode {t : Traced} {va : U32} {code : Bool} (h : t.EntryOk va code)
    (hva : va < 0xC0000000)
    (hmode : (t.origin va code).aprOffset = t.m.aprOffset ∨
      t.m.apr code CMMU_SAPR = t.m.apr code CMMU_UAPR) :
    t.m.aprFor va code = (t.origin va code).aprFor va code := by
  have hlow : ¬0xC0000000 ≤ va := BitVec.not_le.2 hva
  obtain ⟨hs, hu⟩ := h.apr_eq code
  unfold Machine.aprFor
  rw [if_neg hlow, if_neg hlow]
  rcases hmode with hsame | hsame
  · rw [hsame]
    unfold Machine.aprOffset
    split
    · exact hs
    · exact hu
  · unfold Machine.aprOffset
    split <;> split <;> simp only [← hs, ← hu, hsame]

theorem Reached.outcome {t : Traced} {va : U32} {code write : Bool} (h : Reached t)
    (hok : t.ModesOk (.translate va code write)) (hva : va < 0xC0000000) :
    (Op.translate va code write).outcome t.m =
      [(t.m.setXlatWrite write).tablesOutcome va code] := by
  obtain ⟨hcoh, hon⟩ := h.coherent
  have hwords := hok.words va code write rfl va code (.inl ⟨rfl, rfl⟩)
  have hfresh : t.m.Fresh va code := EntryOk.fresh (hcoh.entry va code) hwords
    fun hit => (hcoh.entry va code hit).aprFor_mode hva (hok.mode va code write rfl hva hit)
  have htables := Machine.translate_tablesOutcome (m := t.m.setXlatWrite write) hcoh.realmm hon
    hva hfresh (hok.own va code write rfl hva)
  rw [← htables]
  rfl

end Traced

/-- Whatever either mode did before, a user-space access is resolved through
the table its mode names; two histories that leave that table alike give it the
same outcome. -/
theorem user_access_own_tables {t₁ t₂ : Traced} {va : U32} {code write : Bool}
    (h₁ : t₁.Reached) (h₂ : t₂.Reached) (hok₁ : t₁.ModesOk (.translate va code write))
    (hok₂ : t₂.ModesOk (.translate va code write)) (hva : va < 0xC0000000) :
    (Op.translate va code write).outcome t₁.m =
        [(t₁.m.setXlatWrite write).tablesOutcome va code] ∧
      (Machine.SameView (t₁.m.setXlatWrite write) (t₂.m.setXlatWrite write) va code →
        (Op.translate va code write).outcome t₂.m =
          (Op.translate va code write).outcome t₁.m) := by
  refine ⟨h₁.outcome hok₁ hva, fun hview => ?_⟩
  rw [h₁.outcome hok₁ hva, h₂.outcome hok₂ hva, hview.tablesOutcome_eq]

/-! ## A page that both modes map -/

/-- The page at `0x1000` is frame `0x00400000` for the supervisor's code and
frame `0x00500000` for the user's; the supervisor also has a page at `0x2000`. -/
def twoModesMem : Mem :=
  let mem := (Mem.blank true).w32 (0xFFF7F000 + CMMU_SAPR) 0x00110001
  let mem := mem.w32 (0xFFF7F000 + CMMU_UAPR) 0x00120001
  let mem := mem.w32 0x00110000 0x00111001
  let mem := mem.w32 (0x00111000 + 4) 0x00400001
  let mem := mem.w32 (0x00111000 + 8) 0x00410001
  let mem := mem.w32 0x00120000 0x00121001
  mem.w32 (0x00121000 + 4) 0x00500001

def twoModes (psr : U32) : Machine :=
  { Machine.fresh with mem := twoModesMem, cpu := Cpu.blank.setCr 1 psr }

def userCpu : Cpu := Cpu.blank.setCr 1 0

/-- A fetch by the supervisor at `va`, then the switch to user mode. -/
def visited (va : U32) : Traced :=
  ((⟨twoModes 0x80000000, fun _ _ => twoModes 0⟩ : Traced).step (.translate va true false)).step
    (.setCpu userCpu)

theorem visited_mem (va : U32) : (visited va).m.mem = twoModesMem := by
  have hcpu : ∀ t : Traced, (t.step (.setCpu userCpu)).m.mem = t.m.mem := fun _ => rfl
  rw [visited, hcpu]
  exact Op.run_translate_mem (m := twoModes 0x80000000) rfl va true false

theorem twoModes_booted (psr : U32) : Traced.Booted (twoModes psr) := ⟨rfl, rfl, rfl, rfl⟩

/-- A first fetch, with nothing cached and the page in the mode's own table. -/
theorem modesOk_first {t : Traced} {va : U32} (hreal : t.m.mem.realmm = true)
    (hva : va < 0xC0000000) (hmiss : ¬t.m.Hit va true) (hown : t.m.ownTable va true ≠ none) :
    t.ModesOk (.translate va true false) where
  toStepOk := by
    refine Traced.stepOk_translate hreal ?_
    rintro vb code' (⟨rfl, rfl⟩ | ⟨hdev, -⟩)
    · exact fun hit => absurd hit hmiss
    · exact absurd (BitVec.le_trans (by decide) hdev) (BitVec.not_le.2 hva)
  mode := by
    rintro _ _ _ ⟨⟩ _ hit
    exact absurd hit hmiss
  own := by
    rintro _ _ _ ⟨⟩ _ hnone
    exact absurd hnone hown

theorem modesOk_setCpu (t : Traced) (c : Cpu) : t.ModesOk (.setCpu c) where
  toStepOk := Traced.stepOk_setCpu c
  mode := fun _ _ _ h => (nomatch h)
  own := fun _ _ _ h => (nomatch h)

theorem visited_view : Machine.SameView ((twoModes 0).setXlatWrite false)
    ((visited 0x2000).m.setXlatWrite false) 0x1000 true where
  apr := by decide +kernel
  words a _ := by
    rw [Machine.setXlatWrite_mem, Machine.setXlatWrite_mem, visited_mem]
    rfl
  bias := by decide +kernel
  procexp := by decide +kernel
  write := by decide +kernel
  pc := by decide +kernel
  fault := by decide +kernel

theorem fresh_reached : Traced.Reached ⟨twoModes 0, fun _ _ => twoModes 0⟩ :=
  .boot _ (twoModes_booted 0)

theorem visited_reached : (visited 0x2000).Reached := by
  have hboot : Traced.Reached ⟨twoModes 0x80000000, fun _ _ => twoModes 0⟩ :=
    .boot _ (twoModes_booted _)
  exact .step (.step hboot (modesOk_first rfl (by decide) (tlbTag_ne_zero _) (by decide +kernel)))
    (modesOk_setCpu _ _)

/-- After the supervisor has fetched from another page, the user's fetch goes
where it goes with no history at all. -/
theorem user_access_after_visit :
    (Op.translate 0x1000 true false).outcome (visited 0x2000).m =
      (Op.translate 0x1000 true false).outcome (twoModes 0) :=
  (user_access_own_tables fresh_reached visited_reached
    (modesOk_first rfl (by decide) (tlbTag_ne_zero _) (by decide +kernel))
    (modesOk_first (by decide +kernel) (by decide) (by decide +kernel) (by decide +kernel))
    (by decide)).2 visited_view

/-- After the supervisor has fetched from the same page, the user's fetch goes
to the supervisor's frame. -/
theorem user_access_mixed :
    Traced.Booted (twoModes 0x80000000) ∧
      (visited 0x1000).m.aprOffset = CMMU_UAPR ∧
      (visited 0x1000).m.tablesOutcome 0x1000 true = (0x00500000, UFault.none) ∧
      (Op.translate 0x1000 true false).outcome (visited 0x1000).m =
        [(0x00400000, UFault.none)] := by
  refine ⟨twoModes_booted _, ?_, ?_, ?_⟩ <;> decide +kernel

end Nx88
