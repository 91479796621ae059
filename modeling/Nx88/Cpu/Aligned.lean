import Nx88.Cpu.Step
/-!
# Word alignment of the program counter

Every branch, jump and return masks or scales its target, so control stays on
word boundaries as long as the vector base does.  The interrupt return relies on
it: valid bits share the low bits of the saved program counter.
-/

namespace Nx88

open Lib.Words

/-- A word boundary. -/
def Aligned (a : U32) : Prop := a &&& 3 = 0

instance (a : U32) : Decidable (Aligned a) := inferInstanceAs (Decidable (_ = _))

theorem aligned_iff (a : U32) : Aligned a ↔ a.toNat % 4 = 0 := by
  unfold Aligned
  rw [← BitVec.toNat_inj, BitVec.toNat_and,
    show (3 : U32).toNat = 2 ^ 2 - 1 from rfl, Nat.and_two_pow_sub_one_eq_mod]
  rfl

theorem Aligned.add {a b : U32} (ha : Aligned a) (hb : Aligned b) : Aligned (a + b) := by
  rw [aligned_iff] at ha hb ⊢
  rw [BitVec.toNat_add]
  omega

theorem aligned_shiftLeft_two (a : U32) : Aligned (a <<< 2) := by
  rw [aligned_iff, BitVec.toNat_shiftLeft, Nat.shiftLeft_eq]
  omega

theorem aligned_mask (a : U32) : Aligned (a &&& ~~~3) := by
  unfold Aligned
  rw [BitVec.and_assoc, show (~~~3 : U32) &&& 3 = 0#32 by decide]
  exact BitVec.and_zero

/-- A jump goes to a word boundary. -/
def Flow.Aligned : Flow → Prop
  | .jump target _ => Nx88.Aligned target
  | _ => True

namespace Machine

/-! ## Where instructions jump to -/

theorem execBr_aligned (m : Machine) (w op : U32) {pc : U32} (hpc : Aligned pc) :
    (m.execBr w pc op).2.Aligned := hpc.add (aligned_shiftLeft_two _)

theorem branch16_aligned (imm : U32) {pc : U32} (hpc : Aligned pc) : Aligned (branch16 pc imm) :=
  hpc.add (aligned_shiftLeft_two _)

theorem execBb_aligned (m : Machine) (op D a imm : U32) {pc : U32} (hpc : Aligned pc) :
    (m.execBb pc op D a imm).2.Aligned := by
  unfold execBb
  simp only
  generalize (if 0x36 ≤ op then (1 : U32) else 0) = want
  split
  · exact branch16_aligned imm hpc
  · trivial

theorem execBcnd_aligned (m : Machine) (op D a imm : U32) {pc : U32} (hpc : Aligned pc) :
    (m.execBcnd pc op D a imm).2.Aligned := by
  unfold execBcnd
  simp only
  split
  · exact branch16_aligned imm hpc
  · trivial

theorem execImm_aligned (m : Machine) (op D a b : U32) : (m.execImm op D a b).2.Aligned := by
  unfold execImm
  split <;> first | trivial | (split <;> trivial)

theorem execCr_aligned (m : Machine) (w D a : U32) : (m.execCr w D a).2.Aligned := by
  unfold execCr
  simp only
  split <;> trivial

theorem execFpu_aligned (m : Machine) (h : Host) (w D S1 : U32) :
    (m.execFpu h w D S1).2.Aligned := by
  unfold execFpu
  simp only
  split <;> trivial

theorem exec3C_aligned (m : Machine) (w D a : U32) : (m.exec3C w D a).2.Aligned := by
  unfold exec3C
  simp only
  split
  · generalize (if fieldSub w = 0x34 then _ else _ : Bool) = fire
    cases fire <;> trivial
  · trivial

theorem execTri_aligned (m : Machine) (sub D a b : U32) : (m.execTri sub D a b).2.Aligned := by
  unfold execTri
  split <;> first | trivial | (split <;> trivial)

theorem exec3D_aligned (m : Machine) (w pc D a : U32) : (m.exec3D w pc D a).2.Aligned := by
  unfold exec3D
  simp only
  split
  · trivial
  split
  · exact execTri_aligned m _ _ _ _
  split
  · trivial
  split
  · trivial
  split
  · trivial
  split
  · exact aligned_mask _
  split
  · exact aligned_mask _
  · trivial

theorem execute_aligned (m : Machine) (h : Host) (w : U32) {pc : U32} (hpc : Aligned pc) :
    (m.execute h w pc).2.Aligned := by
  unfold execute
  simp only
  split
  · trivial
  split
  · exact execImm_aligned m _ _ _ _
  split
  · exact execCr_aligned m _ _ _
  split
  · exact execFpu_aligned m h _ _ _
  split
  · exact execBr_aligned m _ _ hpc
  split
  · exact execBb_aligned m _ _ _ _ hpc
  split
  · exact execBcnd_aligned m _ _ _ _ hpc
  split
  · exact exec3C_aligned m _ _ _
  split
  · exact exec3D_aligned m _ _ _ _
  · trivial

/-! ## Who sets the program counter -/

/-- Program counter and delay-slot latch are as they were. -/
structure SameFlow (m m' : Machine) : Prop where
  pc : m'.cpu.pc = m.cpu.pc
  pending : m'.cpu.pending = m.cpu.pending
  hasPending : m'.cpu.hasPending = m.cpu.hasPending

theorem SameFlow.trans {m m' m'' : Machine} (h₁ : SameFlow m m') (h₂ : SameFlow m' m'') :
    SameFlow m m'' :=
  ⟨h₂.pc.trans h₁.pc, h₂.pending.trans h₁.pending, h₂.hasPending.trans h₁.hasPending⟩

theorem sameFlow_of_cpu {m m' : Machine} (h : m'.cpu = m.cpu) : SameFlow m m' :=
  ⟨congrArg Cpu.pc h, congrArg Cpu.pending h, congrArg Cpu.hasPending h⟩

theorem RegsOnly.sameFlow {m m' : Machine} (h : RegsOnly m m') : SameFlow m m' := by
  obtain ⟨r, cr, rfl⟩ := h
  exact ⟨rfl, rfl, rfl⟩

theorem wr_sameFlow (m : Machine) (n v : U32) : SameFlow m (m.wr n v) :=
  (wr_regsOnly m n v).sameFlow

theorem setMem_sameFlow (m : Machine) (mem : Mem) : SameFlow m (m.setMem mem) := ⟨rfl, rfl, rfl⟩

theorem timerRead_sameFlow {m m' : Machine} {sub D ea : U32}
    (h : m.timerRead sub D ea = some m') : SameFlow m m' := by
  unfold timerRead at h
  simp only at h
  split at h
  case h_6 => cases h
  all_goals
    rw [← Option.some.inj h]
    exact wr_sameFlow m _ _

theorem shaCommand_cpu (m : Machine) (ea : U32) (v : U16) : (m.shaCommand ea v).cpu = m.cpu := by
  unfold shaCommand
  show Machine.cpu (if _ then _ else _) = _
  split
  · rfl
  split
  · rfl
  split
  · rfl
  · rfl

theorem memTransfer_sameFlow (m : Machine) (sub D ea : U32) :
    SameFlow m (m.memTransfer sub D ea) := by
  unfold memTransfer
  split
  case h_6 => exact (wr_sameFlow m _ _).trans (wr_sameFlow _ _ _)
  case h_7 => exact sameFlow_of_cpu (devWrite32_cpu m _ _)
  case h_8 => exact sameFlow_of_cpu (tcsPoke_cpu _ _)
  case h_9 => exact sameFlow_of_cpu rfl
  case h_10 => exact sameFlow_of_cpu ((devWrite32_cpu _ _ _).trans (devWrite32_cpu m _ _))
  case h_11 => exact (setMem_sameFlow m _).trans (wr_sameFlow _ _ _)
  case h_12 => exact (setMem_sameFlow m _).trans (wr_sameFlow _ _ _)
  case h_13 => exact sameFlow_of_cpu rfl
  all_goals exact wr_sameFlow m _ _

theorem memAccess_sameFlow (m : Machine) (sub D ea : U32) :
    SameFlow m (m.memAccess sub D ea) := by
  unfold memAccess
  split
  · exact sameFlow_of_cpu (shaCommand_cpu m _ _)
  split
  · exact wr_sameFlow m _ _
  split
  · exact wr_sameFlow m _ _
  split
  · split
    · exact (setMem_sameFlow m _).trans (wr_sameFlow _ _ _)
    · exact sameFlow_of_cpu rfl
  split
  · rename_i htimer
    split at htimer
    · exact timerRead_sameFlow htimer
    · cases htimer
  · exact memTransfer_sameFlow m _ _ _

theorem memLooked_cpu (m : Machine) (sub ea : U32) : (m.memLooked sub ea).cpu = m.cpu :=
  (translate_peeked (m.setXlatWrite (isStore sub)) ea false).cpu

theorem memop_sameFlow (m : Machine) (sub D ea : U32) : SameFlow m (m.memop sub D ea) := by
  rw [memop_eq]
  split
  · exact wr_sameFlow m _ _
  have hlooked := sameFlow_of_cpu (memLooked_cpu m sub ea)
  split
  · exact hlooked.trans ⟨rfl, rfl, rfl⟩
  · exact hlooked.trans (memAccess_sameFlow _ _ _ _)

theorem execute_sameFlow (m : Machine) (h : Host) (w pc : U32) :
    SameFlow m (m.execute h w pc).1 := by
  cases hform : m.memForm w with
  | none => exact (execute_plain h pc hform).1.sameFlow
  | some form =>
    obtain ⟨sub, ea⟩ := form
    rw [execute_mem hform]
    exact memop_sameFlow m _ _ _

/-! ## Alignment over a step -/

/-- Control is on word boundaries, now and after a delay slot. -/
structure OnWords (m : Machine) : Prop where
  pc : Aligned m.cpu.pc
  pending : Aligned m.cpu.pending

theorem SameFlow.onWords {m m' : Machine} (h : SameFlow m m') (hm : m.OnWords) : m'.OnWords :=
  ⟨by rw [h.pc]; exact hm.pc, by rw [h.pending]; exact hm.pending⟩

theorem sequence_onWords {m : Machine} {pc : U32} {flow : Flow} (hm : m.OnWords)
    (hpc : Aligned pc) (hflow : flow.Aligned) : (m.sequence pc flow).OnWords := by
  have hnext : Aligned (pc + 4) := hpc.add (by decide)
  unfold sequence
  split
  · exact ⟨hm.pending, hm.pending⟩
  split
  · exact ⟨hnext, hflow⟩
  · exact ⟨hflow, hm.pending⟩
  · exact ⟨hnext, hm.pending⟩

theorem finish_onWords {m : Machine} {pc : U32} {flow : Flow} (hm : m.OnWords)
    (hpc : Aligned pc) (hflow : flow.Aligned) : (m.finish pc flow).1.OnWords := by
  unfold finish
  split
  · exact ⟨hm.pc, hm.pending⟩
  split
  · exact hm
  · exact sequence_onWords hm hpc hflow

theorem exec_onWords {m : Machine} (h : Host) (hm : m.OnWords) : (m.exec h).1.OnWords := by
  have hfetch := sameFlow_of_cpu (fetch_peeked m).cpu
  have htick : SameFlow m.fetch.2 m.fetch.2.tick := ⟨rfl, rfl, rfl⟩
  rw [exec_eq]
  split
  · exact hfetch.onWords hm
  · exact finish_onWords
      (((hfetch.trans htick).trans (execute_sameFlow _ h _ _)).onWords hm) hm.pc
      (execute_aligned _ h _ hm.pc)

theorem deliverException_onWords {m : Machine} (vector : U32) (hm : m.OnWords)
    (hvbr : Aligned (m.cpu.cr 7)) : (m.deliverException vector).OnWords := by
  refine ⟨hvbr.add ?_, hm.pending⟩
  rw [aligned_iff, BitVec.toNat_mul]
  show vector.toNat * 8 % 2 ^ 32 % 4 = 0
  omega

end Machine

end Nx88
