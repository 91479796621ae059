import Nx88.Cpu.Spec
/-!
# What address translation and devices see of the CPU

A translation depends on the PSR and on the pc, a device register on the
instruction count.  With those kept, the rest of the CPU can be exchanged
before the access or after it.
-/

namespace Nx88

namespace Machine

abbrev setCpu (m : Machine) (c : Cpu) : Machine := { m with cpu := c }

/-- What an access may look at in the CPU. -/
structure SameMode (c c' : Cpu) : Prop where
  psr : c'.cr 1 = c.cr 1
  pc : c'.pc = c.pc
  count : c'.count = c.count

/-! ## Translation -/

def swapCpu (c : Cpu) (r : U32 × Machine) : U32 × Machine := (r.1, r.2.setCpu c)

variable {m : Machine} {c : Cpu}

theorem guardWrite_setCpu (hpc : c.pc = m.cpu.pc) (va : U32) (wp : Bool) (pa : U32) :
    (m.setCpu c).guardWrite va wp pa = swapCpu c (m.guardWrite va wp pa) := by
  unfold guardWrite cowFault
  cases wp with
  | false => rfl
  | true =>
      simp only [hpc, if_true]
      by_cases h : ¬m.cfg.procexp = true ∨ ¬m.xlatWrite = true ∨ m.ufault.pending = true
      · rw [if_pos h, if_pos h]
        rfl
      · rw [if_neg h, if_neg h]
        rfl

theorem cachedTable_setCpu (va fallback : U32) (code : Bool) :
    (m.setCpu c).cachedTable va fallback code = swapCpu c (m.cachedTable va fallback code) := by
  unfold cachedTable
  dsimp only
  by_cases hhit : (m.tlb code (tlbIndex va)).tag = tlbTag va
  · rw [if_pos hhit, if_pos hhit]
    rfl
  · rw [if_neg hhit, if_neg hhit]
    have hwalk : (m.setCpu c).walkEnabled ((m.setCpu c).apr code CMMU_SAPR) va =
        m.walkEnabled (m.apr code CMMU_SAPR) va := rfl
    rw [hwalk]
    cases m.walkEnabled (m.apr code CMMU_SAPR) va with
    | none => rfl
    | some r => rfl

theorem translateKernel_setCpu (va : U32) (code : Bool) :
    (m.setCpu c).translateKernel va code = swapCpu c (m.translateKernel va code) := by
  unfold translateKernel
  dsimp only
  split
  · rfl
  split
  · exact cachedTable_setCpu va _ code
  · rfl

theorem noteScratch_setCpu (v : U32) :
    (m.setCpu c).noteScratch v = (m.noteScratch v).setCpu c := by
  unfold noteScratch
  split <;> rfl

theorem scratchBase_setCpu : (m.setCpu c).scratchBase = swapCpu c m.scratchBase := by
  unfold scratchBase
  simp only [translateKernel_setCpu]
  split
  · simp only [swapCpu, noteScratch_setCpu]
  · rfl

theorem translateDevice_setCpu (va : U32) (code : Bool) :
    (m.setCpu c).translateDevice va code = swapCpu c (m.translateDevice va code) := by
  unfold translateDevice
  simp only [scratchBase_setCpu, swapCpu]
  split
  · rfl
  · exact cachedTable_setCpu va va code

theorem missUser_setCpu (hpc : c.pc = m.cpu.pc) (apr va : U32) (code : Bool) :
    (m.setCpu c).missUser apr va code = swapCpu c (m.missUser apr va code) := by
  unfold missUser
  simp only [hpc]
  cases m.mem.walkFb m.ktabBias m.devmap apr va code with
  | none =>
      simp only
      split <;> rfl
  | some r => exact guardWrite_setCpu (m := m.tlbFill code va _) hpc _ _ _

theorem translateUser_setCpu (hmode : SameMode m.cpu c) (va : U32) (code : Bool) :
    (m.setCpu c).translateUser va code = swapCpu c (m.translateUser va code) := by
  have hapr : (m.setCpu c).apr code (m.setCpu c).aprOffset = m.apr code m.aprOffset := by
    unfold aprOffset apr
    rw [hmode.psr]
  unfold translateUser
  simp only [hapr]
  split
  · rfl
  split
  · exact guardWrite_setCpu hmode.pc _ _ _
  · exact missUser_setCpu hmode.pc _ va code

/-- A translation leaves the CPU alone and looks at the PSR and the pc only. -/
theorem translate_setCpu (hmode : SameMode m.cpu c) (va : U32) (code : Bool) :
    (m.setCpu c).translate va code = swapCpu c (m.translate va code) := by
  unfold translate
  dsimp only
  split
  · rfl
  split
  · split
    · have hwalk : (m.setCpu c).walkEnabled ((m.setCpu c).apr code CMMU_SAPR) va =
        m.walkEnabled (m.apr code CMMU_SAPR) va := rfl
      rw [hwalk]
      cases m.walkEnabled (m.apr code CMMU_SAPR) va with
      | none => rfl
      | some r => rfl
    split
    · exact translateDevice_setCpu va code
    · exact translateKernel_setCpu va code
  · exact translateUser_setCpu hmode va code

/-! ## Devices -/

theorem timerNow_setCpu (hmode : SameMode m.cpu c) : (m.setCpu c).timerNow = m.timerNow := by
  unfold timerNow
  rw [hmode.count]

theorem devRead32_setCpu (hmode : SameMode m.cpu c) (a : U32) :
    (m.setCpu c).devRead32 a = m.devRead32 a := by
  unfold devRead32
  rw [timerNow_setCpu hmode]

theorem tcsPoke_setCpu (a : U32) : (m.setCpu c).tcsPoke a = (m.tcsPoke a).setCpu c := by
  unfold tcsPoke
  dsimp only
  split
  · rfl
  split
  · rfl
  · rfl

theorem cmmuCommand_setCpu (base cmd : U32) :
    (m.setCpu c).cmmuCommand base cmd = (m.cmmuCommand base cmd).setCpu c := by
  unfold cmmuCommand
  dsimp only
  split
  · rfl
  · split <;> rfl

theorem cmmuWrite_setCpu (a v : U32) :
    (m.setCpu c).cmmuWrite a v = (m.cmmuWrite a v).setCpu c := by
  unfold cmmuWrite
  split
  · split
    · exact cmmuCommand_setCpu _ _
    split
    · rfl
    · rfl
  · rfl

theorem devWrite32_setCpu (a v : U32) :
    (m.setCpu c).devWrite32 a v = (m.devWrite32 a v).setCpu c := by
  unfold devWrite32
  dsimp only
  split
  · split
    · rfl
    split
    · rfl
    split
    · rfl
    · rw [← cmmuWrite_setCpu, ← tcsPoke_setCpu]
      split <;> split <;> rfl
  · rfl

theorem shaCommand_setCpu (ea : U32) (v : U16) :
    (m.setCpu c).shaCommand ea v = (m.shaCommand ea v).setCpu c := by
  unfold shaCommand
  dsimp only
  split
  · rfl
  split
  · rfl
  split <;> rfl

end Machine

end Nx88
