import Nx88.Tlb.Run
/-!
# The cache is invisible

Emptying the cache before every translation changes no address and no fault
record, in any run that changes area pointers by words stored to them, sends a
command to the CMMU after changing descriptors it still relies on, and keeps
the two area pointers of a side equal while user addresses are translated.
-/

namespace Nx88

namespace Traced

def start (m : Machine) : Traced := ⟨m, fun _ _ => m⟩

/-- Both area pointers of a side name one table when a user address is
translated. -/
def EqualPointers (t : Traced) (op : Op) : Prop :=
  ∀ va code write, op = .translate va code write → va < 0xC0000000 →
    t.m.apr code CMMU_SAPR = t.m.apr code CMMU_UAPR

def InvisibleOk (apr : U32 → Op → Prop) (t : Traced) (op : Op) : Prop :=
  t.StepOk apr op ∧ t.EqualPointers op

theorem EntryOk.aprFor_eq {t : Traced} {va : U32} {code : Bool} (h : t.EntryOk va code)
    (heq : va < 0xC0000000 → t.m.apr code CMMU_SAPR = t.m.apr code CMMU_UAPR) :
    t.m.aprFor va code = (t.origin va code).aprFor va code := by
  by_cases hva : 0xC0000000 ≤ va
  · exact h.aprFor_kernel hva
  · have hsame := heq (BitVec.not_le.1 hva)
    obtain ⟨hs, hu⟩ := h.apr_eq code
    unfold Machine.aprFor
    rw [if_neg hva, if_neg hva]
    unfold Machine.aprOffset
    split <;> split <;> simp only [← hs, ← hu, hsame]

theorem Coherent.freshFor {t : Traced} {va : U32} {code write : Bool} {apr : U32 → Op → Prop}
    (h : t.Coherent) (hok : t.InvisibleOk apr (.translate va code write)) :
    t.m.FreshFor va code := by
  obtain ⟨hstep, heq⟩ := hok
  have hwords := hstep.words va code write rfl
  refine ⟨?_, fun hdev hscratch => ?_⟩
  · exact EntryOk.fresh (h.entry va code) (hwords va code (.inl ⟨rfl, rfl⟩))
      fun hit => (h.entry va code hit).aprFor_eq (heq va code write rfl)
  · exact EntryOk.fresh (h.entry _ _) (hwords _ _ (.inr ⟨hdev, hscratch, rfl, rfl⟩))
      fun hit => (h.entry _ _ hit).aprFor_kernel (by decide)

theorem Coherent.step_emptied {t : Traced} {n : Machine} {op : Op} {apr : U32 → Op → Prop}
    (h : t.Coherent) (hok : t.InvisibleOk apr op) (hn : n.tlbFlush = t.m.tlbFlush) :
    op.outcome t.m = op.outcome (op.emptied n) ∧
      (op.run (op.emptied n)).tlbFlush = (op.run t.m).tlbFlush := by
  by_cases htrans : op.IsTranslate
  · cases op with
    | translate va code write =>
      have hfresh : (t.m.setXlatWrite write).FreshFor va code := h.freshFor hok
      obtain ⟨haddr, hstate⟩ := Machine.translate_sameOutcome
        (m := t.m.setXlatWrite write) h.realmm hfresh
      have hstart : (t.m.setXlatWrite write).tlbFlush = n.tlbFlush.setXlatWrite write := by
        rw [hn]
        rfl
      rw [hstart] at haddr hstate
      have hfault := congrArg Machine.ufault hstate
      simp only [Machine.tlbFlush_ufault] at hfault
      refine ⟨?_, ?_⟩
      · simp only [Op.outcome, Op.emptied, haddr, hfault]
      · exact congrArg (fun k : Machine => k.setXlatWrite false) hstate.symm
    | access sub D pa => exact absurd htrans id
    | poke a v => exact absurd htrans id
    | setCpu c => exact absurd htrans id
    | setFault u => exact absurd htrans id
    | reportTrap vector pc => exact absurd htrans id
    | mapDevice va pa => exact absurd htrans id
    | rebias b => exact absurd htrans id
  · have hquiet : op.emptied n = n ∧ op.outcome t.m = op.outcome n := by
      cases op with
      | translate va code write => exact absurd trivial htrans
      | access sub D pa => exact ⟨rfl, rfl⟩
      | poke a v => exact ⟨rfl, rfl⟩
      | setCpu c => exact ⟨rfl, rfl⟩
      | setFault u => exact ⟨rfl, rfl⟩
      | reportTrap vector pc => exact ⟨rfl, rfl⟩
      | mapDevice va pa => exact ⟨rfl, rfl⟩
      | rebias b => exact ⟨rfl, rfl⟩
    rw [hquiet.1]
    refine ⟨hquiet.2, ?_⟩
    rw [Op.run_tlbFlush htrans, Op.run_tlbFlush htrans, hn]

theorem Coherent.outcomes_eq {t : Traced} {n : Machine} {ops : List Op} (h : t.Coherent)
    (hok : RunOk (InvisibleOk Op.StoresTo) ops t) (hn : n.tlbFlush = t.m.tlbFlush) :
    outcomes ops t.m = outcomesEmptied ops n := by
  induction ops generalizing t n with
  | nil => rfl
  | cons op ops ih =>
    obtain ⟨hstep, hrest⟩ := hok
    obtain ⟨hout, hstate⟩ := h.step_emptied hstep hn
    rw [outcomes, outcomesEmptied, hout]
    congr 1
    exact ih (coherent_step h hstep.1) hrest hstate

end Traced

/-- From an empty cache every translation of a run returns the address, and
leaves the fault record, that it would with the cache emptied first. -/
theorem outcomes_eq_outcomesEmptied {m : Machine} {ops : List Op}
    (hempty : m.tlb = fun _ _ => ⟨0, 0⟩) (hreal : m.mem.realmm = true)
    (hsys : m.cfg.sysmode = true)
    (hok : Traced.RunOk (Traced.InvisibleOk Op.StoresTo) ops (Traced.start m)) :
    outcomes ops m = outcomesEmptied ops m :=
  (Traced.coherent_of_empty hreal hsys hempty : (Traced.start m).Coherent).outcomes_eq hok rfl

/-! ## Moving a table -/

/-- Two kernel tables that map the page at `0xC0000000` to different frames,
the first of them active.  Register 5 is about to be stored. -/
def twoTables (r5 : U32) : Machine :=
  let mem := (Mem.blank true).w32 (0xFFF7E000 + CMMU_SAPR) 0x00110001
  let mem := mem.w32 (0x00110000 + 0x300 * 4) 0x00111001
  let mem := mem.w32 0x00111000 0x00400001
  let mem := mem.w32 (0x00120000 + 0x300 * 4) 0x00121001
  let mem := mem.w32 0x00121000 0x00500001
  { Machine.fresh with mem := mem, cpu := Cpu.blank.wr 5 r5 }

/-- Translate a page, store a word at `pa`, translate the page again. -/
def storeBetween (pa : U32) : List Op :=
  [.translate 0xC0000000 false false, .access 0x09 5 pa, .translate 0xC0000000 false false]

def stored (r5 pa : U32) : Traced :=
  ((Traced.start (twoTables r5)).step (.translate 0xC0000000 false false)).step
    (.access 0x09 5 pa)

theorem storeBetween_ok {apr : U32 → Op → Prop} {r5 pa : U32}
    (hstore : ∀ a, Machine.IsApr a →
      (stored r5 pa).m.mem.r32 a ≠
        ((Traced.start (twoTables r5)).step (.translate 0xC0000000 false false)).m.mem.r32 a →
      apr a (.access 0x09 5 pa))
    (hreal : (stored r5 pa).m.mem.realmm = true)
    (hwords : (stored r5 pa).Unchanged 0xC0000000 false) :
    Traced.RunOk (Traced.InvisibleOk apr) (storeBetween pa) (Traced.start (twoTables r5)) := by
  have hlow : ∀ t : Traced, t.EqualPointers (.translate 0xC0000000 false false) := by
    intro t va code write heq hva
    cases heq
    exact absurd hva (by decide)
  have hself : ∀ {t : Traced}, t.Unchanged 0xC0000000 false →
      ∀ vb code', t.LooksUp 0xC0000000 false vb code' → t.Unchanged vb code' := by
    rintro t h vb code' (⟨rfl, rfl⟩ | ⟨hdev, -⟩)
    · exact h
    · exact absurd hdev (by decide)
  refine ⟨⟨Traced.stepOk_translate rfl (hself fun hit => ?_), hlow _⟩,
    ⟨Traced.stepOk_access hstore, fun _ _ _ h => (nomatch h)⟩,
    ⟨Traced.stepOk_translate hreal (hself hwords), hlow _⟩, trivial⟩
  exact absurd hit (tlbTag_ne_zero _)

theorem twoTables_consulted :
    (twoTables 0x12).consulted 0xC0000000 false = [0x00110C00, 0x00111000] := by
  decide +kernel

/-- With the pointer itself stored to, the second translation follows the new
table. -/
theorem outcomes_storeBetween_apr :
    outcomes (storeBetween 0xFFF7E200) (twoTables 0x00120001) =
      outcomesEmptied (storeBetween 0xFFF7E200) (twoTables 0x00120001) := by
  refine outcomes_eq_outcomesEmptied rfl rfl rfl
    (storeBetween_ok ?_ (by decide +kernel) fun hit => ?_)
  · rintro a ⟨code, rfl | rfl⟩ hne
    · cases code with
      | false => exact ⟨5, .inl rfl⟩
      | true => exact absurd (by decide +kernel) hne
    · cases code with
      | false => exact absurd (by decide +kernel) hne
      | true => exact absurd (by decide +kernel) hne
  · exact absurd hit (by decide +kernel)

/-- A word stored two bytes below the pointer changes it and leaves the cache
alone: with area pointers changed by word stores only, emptying the cache shows. -/
theorem outcomes_misaligned_store :
    (twoTables 0x12).tlb = (fun _ _ => ⟨0, 0⟩) ∧ (twoTables 0x12).mem.realmm = true ∧
      (twoTables 0x12).cfg.sysmode = true ∧
      Traced.RunOk (Traced.InvisibleOk fun _ op => op.IsWordStore) (storeBetween 0xFFF7E1FE)
        (Traced.start (twoTables 0x12)) ∧
      outcomes (storeBetween 0xFFF7E1FE) (twoTables 0x12) ≠
        outcomesEmptied (storeBetween 0xFFF7E1FE) (twoTables 0x12) := by
  have horigin : (stored 0x12 0xFFF7E1FE).origin 0xC0000000 false = twoTables 0x12 := by
    rw [stored, Traced.origin_step_of_eq (by decide +kernel),
      Traced.origin_step_of_ne (by decide +kernel)]
    rfl
  have hwords : (stored 0x12 0xFFF7E1FE).Unchanged 0xC0000000 false := by
    intro _
    rw [horigin, twoTables_consulted]
    intro a ha
    rcases List.mem_pair.1 ha with rfl | rfl
    · decide +kernel
    · decide +kernel
  refine ⟨rfl, rfl, rfl, storeBetween_ok (fun _ _ _ => ⟨5, _, .inl rfl⟩) (by decide +kernel)
    hwords, ?_⟩
  decide +kernel

end Nx88
