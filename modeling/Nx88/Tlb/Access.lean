import Nx88.Tlb.Lookup
/-!
# What an access does to the cache

A load, store or exchange at a physical address may change registers, memory
and devices.  It leaves the cache alone or empties it, never looks at it, and
empties it whenever a word is stored to an area pointer.
-/

namespace Nx88

open Lib.Words

namespace Machine

/-! ## The frame of an access -/

/-- An access changes registers, memory contents and devices, and keeps or
empties the cache. -/
def Accessed (m m' : Machine) : Prop :=
  ∃ c p d g t, m' = { m with cpu := c, mem := ⟨m.mem.realmm, p⟩, dev := d, hung := g, tlb := t } ∧
    (t = m.tlb ∨ t = fun _ _ => ⟨0, 0⟩)

theorem Accessed.refl (m : Machine) : Accessed m m :=
  ⟨m.cpu, m.mem.pages, m.dev, m.hung, m.tlb, rfl, .inl rfl⟩

theorem Accessed.trans {m m' m'' : Machine} (h₁ : Accessed m m') (h₂ : Accessed m' m'') :
    Accessed m m'' := by
  obtain ⟨c₁, p₁, d₁, g₁, t₁, rfl, ht₁⟩ := h₁
  obtain ⟨c₂, p₂, d₂, g₂, t₂, rfl, ht₂⟩ := h₂
  refine ⟨c₂, p₂, d₂, g₂, t₂, rfl, ?_⟩
  rcases ht₂ with rfl | rfl
  · exact ht₁
  · exact .inr rfl

theorem accessed_cpu (m : Machine) (c : Cpu) : Accessed m { m with cpu := c } :=
  ⟨c, m.mem.pages, m.dev, m.hung, m.tlb, rfl, .inl rfl⟩

theorem accessed_wr (m : Machine) (n v : U32) : Accessed m (m.wr n v) := accessed_cpu m _

theorem accessed_dev (m : Machine) (d : Devices) : Accessed m { m with dev := d } :=
  ⟨m.cpu, m.mem.pages, d, m.hung, m.tlb, rfl, .inl rfl⟩

theorem accessed_setMem (m : Machine) {mem : Mem} (h : mem.realmm = m.mem.realmm) :
    Accessed m (m.setMem mem) := by
  refine ⟨m.cpu, mem.pages, m.dev, m.hung, m.tlb, ?_, .inl rfl⟩
  rw [← h]
  rfl

theorem accessed_tlbFlush (m : Machine) : Accessed m m.tlbFlush :=
  ⟨m.cpu, m.mem.pages, m.dev, m.hung, _, rfl, .inr rfl⟩

theorem cmmuCommand_accessed (m : Machine) (base cmd : U32) :
    Accessed m (m.cmmuCommand base cmd) := by
  unfold cmmuCommand
  simp only
  split
  · exact accessed_tlbFlush m
  split
  · exact accessed_setMem m (by simp)
  · exact accessed_setMem m (by simp)

theorem cmmuWrite_accessed (m : Machine) (a v : U32) : Accessed m (m.cmmuWrite a v) := by
  unfold cmmuWrite
  split
  · split
    · exact cmmuCommand_accessed m _ _
    split
    · exact accessed_tlbFlush m
    · exact Accessed.refl m
  · exact Accessed.refl m

theorem tcsPoke_accessed (m : Machine) (a : U32) : Accessed m (m.tcsPoke a) := by
  unfold tcsPoke
  split
  · exact Accessed.refl m
  split
  · exact Accessed.refl m
  · exact accessed_setMem m (by simp)

theorem devWrite32_accessed (m : Machine) (a v : U32) : Accessed m (m.devWrite32 a v) := by
  have hstore : ∀ k : Machine, Accessed k (k.setMem (k.mem.w32 a v)) :=
    fun k => accessed_setMem k (Mem.w32_realmm _ _ _)
  unfold devWrite32
  split
  · split
    · exact accessed_dev m _
    split
    · exact accessed_dev m _
    split
    · exact accessed_dev m _
    · have hcmp : Accessed m (if a = TIMER_CMP_REG
          then { m with dev := { m.dev with clockDeadline := v, clockArmed := true } } else m) := by
        split
        · exact accessed_dev m _
        · exact Accessed.refl m
      have hena : ∀ k : Machine, Accessed k (if a = TIMER_ENA_REG
          then { k with dev := { k.dev with clockEnabled := v ≠ 0 } } else k) := by
        intro k
        split
        · exact accessed_dev k _
        · exact Accessed.refl k
      exact (((hcmp.trans (hena _)).trans (hstore _)).trans (tcsPoke_accessed _ a)).trans
        (cmmuWrite_accessed _ a v)
  · exact hstore m

theorem memTransfer_accessed (m : Machine) (sub D ea : U32) :
    Accessed m (m.memTransfer sub D ea) := by
  unfold memTransfer
  split
  · exact accessed_wr m _ _
  · exact accessed_wr m _ _
  · exact accessed_wr m _ _
  · exact accessed_wr m _ _
  · exact accessed_wr m _ _
  · exact (accessed_wr m _ _).trans (accessed_wr _ _ _)
  · exact devWrite32_accessed m _ _
  · exact (accessed_setMem m (by simp)).trans (tcsPoke_accessed _ _)
  · exact accessed_setMem m (by simp)
  · exact (devWrite32_accessed m _ _).trans (devWrite32_accessed _ _ _)
  · exact (accessed_setMem m (by simp)).trans (accessed_wr _ _ _)
  · exact (accessed_setMem m (by simp)).trans (accessed_wr _ _ _)
  · exact Accessed.refl m

theorem shaCommand_accessed (m : Machine) (ea : U32) (v : U16) :
    Accessed m (m.shaCommand ea v) := by
  have hstore : ∀ k : Machine, Accessed k (k.setMem (k.mem.w16 ea v)) :=
    fun k => accessed_setMem k rfl
  unfold shaCommand
  refine Accessed.trans ?_ (hstore _)
  split
  · exact accessed_dev m _
  split
  · exact accessed_dev m _
  split
  · exact accessed_setMem m rfl
  · exact Accessed.refl m

theorem timerRead_accessed {m m' : Machine} {sub D ea : U32}
    (h : m.timerRead sub D ea = some m') : Accessed m m' := by
  unfold timerRead at h
  simp only at h
  split at h
  · rw [← Option.some.inj h]
    exact accessed_wr m _ _
  · rw [← Option.some.inj h]
    exact accessed_wr m _ _
  · rw [← Option.some.inj h]
    exact accessed_wr m _ _
  · rw [← Option.some.inj h]
    exact accessed_wr m _ _
  · rw [← Option.some.inj h]
    exact accessed_wr m _ _
  · cases h

theorem memAccess_accessed (m : Machine) (sub D ea : U32) :
    Accessed m (m.memAccess sub D ea) := by
  unfold memAccess
  split
  · exact shaCommand_accessed m _ _
  split
  · exact accessed_wr m _ _
  split
  · exact accessed_wr m _ _
  split
  · split
    · exact (accessed_setMem m rfl).trans (accessed_wr _ _ _)
    · exact ⟨m.cpu, m.mem.pages, m.dev, true, m.tlb, rfl, .inl rfl⟩
  split
  · rename_i htimer
    split at htimer
    · exact timerRead_accessed htimer
    · cases htimer
  · exact memTransfer_accessed m _ _ _

/-! ## An access does not look at the cache -/

theorem cmmuCommand_tlbFlush (m : Machine) (base cmd : U32) :
    (m.cmmuCommand base cmd).tlbFlush = m.tlbFlush.cmmuCommand base cmd := by
  unfold cmmuCommand
  rw [tlbFlush_mem, tlbFlush_ktabBias, tlbFlush_devmap]
  by_cases h : cmd ≠ 0x20 ∧ cmd ≠ 0x24
  · rw [if_pos h, if_pos h]
  · rw [if_neg h, if_neg h]
    simp only
    split
    · rfl
    · rfl

theorem cmmuWrite_tlbFlush (m : Machine) (a v : U32) :
    (m.cmmuWrite a v).tlbFlush = m.tlbFlush.cmmuWrite a v := by
  unfold cmmuWrite
  cases cmmuBaseOf a with
  | none => rfl
  | some base =>
    simp only
    split
    · exact cmmuCommand_tlbFlush m base v
    split
    · rfl
    · rfl

theorem tcsPoke_tlbFlush (m : Machine) (a : U32) :
    (m.tcsPoke a).tlbFlush = m.tlbFlush.tcsPoke a := by
  unfold tcsPoke
  by_cases hbox : a ≠ m.dev.tcsMboxPa
  · rw [if_pos hbox]
    exact (if_pos hbox).symm
  · rw [if_neg hbox]
    refine Eq.trans ?_ (if_neg hbox).symm
    by_cases hempty : m.mem.r8 m.dev.tcsMboxPa = 0
    · rw [if_pos hempty]
      exact (if_pos hempty).symm
    · rw [if_neg hempty]
      exact (if_neg hempty).symm

theorem devWrite32_tlbFlush (m : Machine) (a v : U32) :
    (m.devWrite32 a v).tlbFlush = m.tlbFlush.devWrite32 a v := by
  unfold devWrite32
  rw [tlbFlush_cfg]
  by_cases hsys : m.cfg.sysmode = true
  · rw [if_pos hsys, if_pos hsys]
    by_cases hsel : a = CMRAM_SELECT
    · rw [if_pos hsel, if_pos hsel]
      rfl
    rw [if_neg hsel, if_neg hsel]
    by_cases hdata : a = CMRAM_DATA
    · rw [if_pos hdata, if_pos hdata]
      rfl
    rw [if_neg hdata, if_neg hdata]
    by_cases hirq : a = IRQ_SOURCE_REG
    · rw [if_pos hirq, if_pos hirq]
      rfl
    rw [if_neg hirq, if_neg hirq, cmmuWrite_tlbFlush, tcsPoke_tlbFlush]
    congr 2
    by_cases hcmp : a = TIMER_CMP_REG
    · by_cases hena : a = TIMER_ENA_REG
      · simp only [if_pos hcmp, if_pos hena]
        rfl
      · simp only [if_pos hcmp, if_neg hena]
        rfl
    · by_cases hena : a = TIMER_ENA_REG
      · simp only [if_neg hcmp, if_pos hena]
        rfl
      · simp only [if_neg hcmp, if_neg hena]
        rfl
  · rw [if_neg hsys, if_neg hsys]
    rfl

theorem wr_tlbFlush (m : Machine) (n v : U32) : (m.wr n v).tlbFlush = m.tlbFlush.wr n v := rfl

theorem setMem_tlbFlush (m : Machine) (mem : Mem) :
    (m.setMem mem).tlbFlush = m.tlbFlush.setMem mem := rfl

theorem devRead32_tlbFlush (m : Machine) (a : U32) : m.tlbFlush.devRead32 a = m.devRead32 a := rfl

theorem memTransfer_tlbFlush (m : Machine) (sub D ea : U32) :
    (m.memTransfer sub D ea).tlbFlush = m.tlbFlush.memTransfer sub D ea := by
  unfold memTransfer
  split
  · rfl
  · rfl
  · rfl
  · rfl
  · rfl
  · dsimp only
    rw [wr_tlbFlush, wr_tlbFlush, devRead32_tlbFlush, ← wr_tlbFlush, devRead32_tlbFlush]
  · exact devWrite32_tlbFlush m _ _
  · exact tcsPoke_tlbFlush _ _
  · rfl
  · have hword : (m.tlbFlush.devWrite32 ea (m.rd D)).rd (D + 1) =
        (m.devWrite32 ea (m.rd D)).rd (D + 1) := by
      rw [← devWrite32_tlbFlush]
      rfl
    show ((m.devWrite32 ea (m.rd D)).devWrite32 (ea + 4) _).tlbFlush =
      (m.tlbFlush.devWrite32 ea (m.rd D)).devWrite32 (ea + 4)
        ((m.tlbFlush.devWrite32 ea (m.rd D)).rd (D + 1))
    rw [hword, devWrite32_tlbFlush, devWrite32_tlbFlush]
  · rfl
  · rfl
  · rfl

theorem shaCommand_tlbFlush (m : Machine) (ea : U32) (v : U16) :
    (m.shaCommand ea v).tlbFlush = m.tlbFlush.shaCommand ea v := by
  unfold shaCommand
  by_cases hgo : v = 0x1000
  · rw [if_pos hgo, if_pos hgo]
    rfl
  rw [if_neg hgo, if_neg hgo]
  by_cases hidle : v = 0
  · rw [if_pos hidle, if_pos hidle]
    rfl
  rw [if_neg hidle, if_neg hidle]
  by_cases hone : v = 1
  · rw [if_pos hone, if_pos hone]
    dsimp only
    rw [setMem_tlbFlush, setMem_tlbFlush]
    rfl
  · rw [if_neg hone, if_neg hone]
    rfl

theorem timerRead_tlbFlush (m : Machine) (sub D ea : U32) :
    m.tlbFlush.timerRead sub D ea = (m.timerRead sub D ea).map tlbFlush := by
  unfold timerRead
  simp only
  split <;> rfl

theorem memAccess_tlbFlush (m : Machine) (sub D ea : U32) :
    (m.memAccess sub D ea).tlbFlush = m.tlbFlush.memAccess sub D ea := by
  unfold memAccess
  rw [tlbFlush_cfg]
  by_cases hcmd : m.cfg.sysmode = true ∧ ea = SHA_CMD ∧ sub = 0x0A
  · rw [if_pos hcmd, if_pos hcmd]
    exact shaCommand_tlbFlush m _ _
  rw [if_neg hcmd, if_neg hcmd]
  by_cases hstatus : m.cfg.sysmode = true ∧ ea = SHA_STATUS ∧ (sub = 0x02 ∨ sub = 0x06)
  · rw [if_pos hstatus, if_pos hstatus]
    rfl
  rw [if_neg hstatus, if_neg hstatus]
  by_cases hready : m.cfg.sysmode = true ∧ (ea = SHA_BASE + 0x08 ∨ ea = SHA_BASE + 0x10) ∧
      (sub = 0x02 ∨ sub = 0x06)
  · rw [if_pos hready, if_pos hready]
    rfl
  rw [if_neg hready, if_neg hready]
  by_cases hring : m.cfg.sysmode = true ∧ ea = HPS_RING_CONS ∧ (sub = 0x03 ∨ sub = 0x07)
  · rw [if_pos hring, if_pos hring, tlbFlush_mem]
    split <;> rfl
  rw [if_neg hring, if_neg hring]
  by_cases htimer : m.cfg.sysmode = true ∧ ea &&& ~~~3 = TIMER_ADDR
  · rw [if_pos htimer, if_pos htimer, timerRead_tlbFlush]
    cases m.timerRead sub D ea with
    | none => exact memTransfer_tlbFlush m _ _ _
    | some m' => rfl
  · rw [if_neg htimer, if_neg htimer]
    exact memTransfer_tlbFlush m _ _ _

/-! ## Storing to an area pointer -/

/-- A word store is not one of the accesses that a device answers by width. -/
theorem memAccess_stw (m : Machine) (D ea : U32) :
    m.memAccess 0x09 D ea = m.devWrite32 ea (m.rd D) := by
  have htimer : m.timerRead 0x09 D ea = none := rfl
  unfold memAccess
  rw [if_neg (by simp), if_neg (by simp), if_neg (by simp), if_neg (by simp), htimer, ite_self]
  rfl

theorem memAccess_std (m : Machine) (D ea : U32) :
    m.memAccess 0x08 D ea =
      (m.devWrite32 ea (m.rd D)).devWrite32 (ea + 4)
        ((m.devWrite32 ea (m.rd D)).rd (D + 1)) := by
  have htimer : m.timerRead 0x08 D ea = none := rfl
  unfold memAccess
  rw [if_neg (by simp), if_neg (by simp), if_neg (by simp), if_neg (by simp), htimer, ite_self]
  rfl

/-- The addresses of the four area pointers. -/
def IsApr (a : U32) : Prop :=
  ∃ code, a = cmmuBase code + CMMU_SAPR ∨ a = cmmuBase code + CMMU_UAPR

theorem devWrite32_apr {m : Machine} {a : U32} (v : U32) (hsys : m.cfg.sysmode = true)
    (h : IsApr a) : (m.devWrite32 a v).tlb = fun _ _ => ⟨0, 0⟩ := by
  have hcases : a = 0xFFF7E200 ∨ a = 0xFFF7E204 ∨ a = 0xFFF7F200 ∨ a = 0xFFF7F204 := by
    obtain ⟨code, rfl | rfl⟩ := h <;> cases code <;> simp [cmmuBase, CMMU_SAPR, CMMU_UAPR]
  have hwrite : ∀ k : Machine, (k.cmmuWrite a v).tlb = fun _ _ => ⟨0, 0⟩ := by
    intro k
    rcases hcases with rfl | rfl | rfl | rfl <;> rfl
  have hplain : a ≠ CMRAM_SELECT ∧ a ≠ CMRAM_DATA ∧ a ≠ IRQ_SOURCE_REG := by
    rcases hcases with rfl | rfl | rfl | rfl <;> decide
  unfold devWrite32
  rw [if_pos hsys, if_neg hplain.1, if_neg hplain.2.1, if_neg hplain.2.2]
  exact hwrite _

end Machine

end Nx88
