import Nx88.Reset
/-!
# The CMMU address probe

The kernel asks the CMMU for the physical address behind a virtual one and uses
the answer for page ownership and DMA.  The probe forces node 0 on kernel
addresses by clearing bits 28-23 of the result; `translate` does not.  The two
agree exactly on the frames that have those bits clear.
-/

namespace Nx88

open Lib.Words

/-! ## Forcing node 0 -/

theorem toNat_and_not_nodeBits (a : U32) :
    (a &&& ~~~NODE_BITS).toNat = a.toNat / 2 ^ 29 * 2 ^ 29 + a.toNat % 2 ^ 23 := by
  have hsplit : a &&& ~~~NODE_BITS = ((a >>> 29) <<< 29) ||| (a &&& 0x7FFFFF) := by
    unfold NODE_BITS
    ext i hi
    interval_cases i <;> simp
  have hlow : a.toNat &&& 0x7FFFFF = a.toNat % 2 ^ 23 :=
    Nat.and_two_pow_sub_one_eq_mod a.toNat 23
  have hhigh : ((a >>> 29) <<< 29).toNat = a.toNat / 2 ^ 29 * 2 ^ 29 := by
    have hlt := a.isLt
    simp only [BitVec.toNat_shiftLeft, BitVec.toNat_ushiftRight, Nat.shiftLeft_eq,
      Nat.shiftRight_eq_div_pow]
    omega
  have hadd := Nat.shiftLeft_add_eq_or_of_lt
    (lt_of_lt_of_le (Nat.mod_lt a.toNat (by decide : 0 < 2 ^ 23)) (by decide : 2 ^ 23 ≤ 2 ^ 29))
    (a.toNat / 2 ^ 29)
  rw [Nat.shiftLeft_eq] at hadd
  rw [hsplit, BitVec.toNat_or, hhigh, BitVec.toNat_and]
  rw [show (0x7FFFFF : U32).toNat = 0x7FFFFF from rfl, hlow]
  exact hadd.symm

/-- Folding cannot hide a node bit: neither the interleaved range nor the vv
window absorbs the difference. -/
theorem cphys_and_not_nodeBits (pa : U32) :
    cphys true (pa &&& ~~~NODE_BITS) = cphys true pa ↔ pa &&& NODE_BITS = 0#32 := by
  rw [← and_not_eq_iff]
  refine ⟨fun h => ?_, fun h => by rw [h]⟩
  have hlt := pa.isLt
  rw [← BitVec.toNat_inj, toNat_cphys, toNat_cphys, toNat_and_not_nodeBits] at h
  rw [← BitVec.toNat_inj, toNat_and_not_nodeBits]
  simp only [true_and, if_true] at h
  split_ifs at h <;> omega

/-! ## The two lookups on a mapped kernel address -/

/-- Kernel data space below the device windows. -/
def IsKernelVa (va : U32) : Prop := 0xC0000000 ≤ va ∧ va < 0xE0000000

instance (va : U32) : Decidable (IsKernelVa va) :=
  inferInstanceAs (Decidable (0xC0000000 ≤ va ∧ va < 0xE0000000))

theorem devmapLookup_of_not_covered {devmap : List DevMap} {va : U32}
    (h : ∀ d ∈ devmap, d.va ≠ pageAddr va) : devmapLookup devmap va = 0 := by
  unfold devmapLookup
  rw [List.find?_eq_none.2 (by simpa using h)]

theorem not_uarea_of_isKernelVa {va : U32} (hva : IsKernelVa va) : ¬UAREA_LO ≤ va := by
  intro h
  have hlt := hva.2
  simp only [UAREA_LO, BitVec.le_def, BitVec.lt_def] at h hlt
  simp at h hlt
  omega

namespace Machine

/-- The walk result the kernel's own table gives for a kernel address that no
device mapping covers, under the real-memory model with `--dataphys`. -/
structure MapsKernel (m : Machine) (code : Bool) (va pa pd : U32) : Prop where
  realmm : m.mem.realmm = true
  dataphys : m.cfg.kdataOff ≠ 0
  translateOn : m.cfg.translateOn = true
  kernelVa : IsKernelVa va
  notCovered : ∀ d ∈ m.devmap, d.va ≠ pageAddr va
  walk : m.walkEnabled (m.apr code CMMU_SAPR) va = some (pa, pd)

theorem mmuWalk_of_walkEnabled {m : Machine} {apr va : U32} {r : U32 × U32}
    (h : m.walkEnabled apr va = some r) : m.mem.mmuWalk m.ktabBias apr va = some r := by
  unfold walkEnabled at h
  split at h
  · cases h
  · exact h

theorem MapsKernel.translate_flushed {m : Machine} {code : Bool} {va pa pd : U32}
    (h : m.MapsKernel code va pa pd) : (m.tlbFlush.translate va code).1 = pa := by
  have hlo : ¬(UAREA_LO ≤ va) := not_uarea_of_isKernelVa h.kernelVa
  have hdev : devmapLookup m.devmap (pageAddr va) = 0 := by
    apply devmapLookup_of_not_covered
    rw [pageAddr_pageAddr]
    exact h.notCovered
  have hhi : ¬(0xE0000000 ≤ va) := BitVec.not_le.2 h.kernelVa.2
  unfold translate
  rw [if_neg (by simp [h.translateOn]), if_pos ⟨h.realmm, h.kernelVa.1⟩,
    if_neg (fun hu => hlo hu.2.2.1), if_neg hhi]
  unfold translateKernel cachedTable
  simp only [tlbFlush_devmap, tlbFlush_cfg, tlbFlush_tlb, tlbFlush_apr, tlbFlush_walkEnabled,
    hdev, ne_eq, not_true_eq_false, if_false, if_pos h.dataphys, if_neg (tlbTag_ne_zero va),
    h.walk]

theorem cmmuCommand_probe {m : Machine} {code : Bool} {va pa pd : U32}
    (hsar : m.mem.r32 (cmmuBase code + CMMU_SAR) = va) (h : m.MapsKernel code va pa pd) :
    m.cmmuCommand (cmmuBase code) 0x24 =
      m.setMem ((m.mem.w32 (cmmuBase code + CMMU_SSR) 1).w32 (cmmuBase code + CMMU_SAR)
        (pa &&& ~~~NODE_BITS)) := by
  have hfb : m.mem.walkFb m.ktabBias m.devmap (m.apr code CMMU_SAPR) va
      (cmmuBase code == 0xFFF7F000) = some (pa, pd) := by
    unfold Mem.walkFb
    rw [mmuWalk_of_walkEnabled h.walk]
  unfold apr at hfb
  unfold cmmuCommand
  rw [if_neg (by decide), hsar]
  simp only [if_true, hfb]
  rw [if_pos (show 0xC0000000 ≤ va ∧ va < 0xE0000000 from h.kernelVa)]

theorem cmmuBase_sar_ne_ssr (code : Bool) :
    ((cmmuBase code + CMMU_SSR).toNat + 2 ^ 32 - (cmmuBase code + CMMU_SAR).toNat) % 4096 =
      4092 := by
  cases code <;> decide

/-- A probe of a mapped kernel address reports valid, and leaves the walked
address with its node bits cleared. -/
theorem MapsKernel.probe {m : Machine} {code : Bool} {va pa pd : U32}
    (hsar : m.mem.r32 (cmmuBase code + CMMU_SAR) = va) (h : m.MapsKernel code va pa pd) :
    (m.cmmuCommand (cmmuBase code) 0x24).mem.r32 (cmmuBase code + CMMU_SSR) = 1 ∧
      (m.cmmuCommand (cmmuBase code) 0x24).mem.r32 (cmmuBase code + CMMU_SAR) =
        pa &&& ~~~NODE_BITS := by
  rw [cmmuCommand_probe hsar h]
  refine ⟨?_, Mem.r32_w32_self _ _ _⟩
  have hoff := cmmuBase_sar_ne_ssr code
  show ((m.mem.w32 (cmmuBase code + CMMU_SSR) 1).w32 (cmmuBase code + CMMU_SAR) _).r32 _ = 1
  rw [Mem.r32_w32_of_offset (by omega) (by omega), Mem.r32_w32_self]

/-! ## Agreement -/

/-- Whether the supervisor probe on one side reports its address valid. -/
def probeValid (m : Machine) (code : Bool) : Prop :=
  (m.cmmuCommand (cmmuBase code) 0x24).mem.r32 (cmmuBase code + CMMU_SSR) &&& 1 ≠ 0

/-- The backing byte that the supervisor probe names. -/
def probedByte (m : Machine) (code : Bool) : U32 :=
  cphys m.mem.realmm
    ((m.cmmuCommand (cmmuBase code) 0x24).mem.r32 (cmmuBase code + CMMU_SAR))

/-- The backing byte that an access reaches with nothing cached. -/
def translatedByte (m : Machine) (code : Bool) (va : U32) : U32 :=
  cphys m.mem.realmm (m.tlbFlush.translate va code).1

def ProbeAgrees (m : Machine) (code : Bool) (va : U32) : Prop :=
  m.probeValid code → m.probedByte code = m.translatedByte code va

theorem MapsKernel.probeAgrees_iff {m : Machine} {code : Bool} {va pa pd : U32}
    (hsar : m.mem.r32 (cmmuBase code + CMMU_SAR) = va) (h : m.MapsKernel code va pa pd) :
    m.ProbeAgrees code va ↔ pa &&& NODE_BITS = 0 := by
  obtain ⟨hvalid, hphys⟩ := h.probe hsar
  have hbyte : m.probedByte code = cphys true (pa &&& ~~~NODE_BITS) := by
    rw [probedByte, hphys, h.realmm]
  have htrans : m.translatedByte code va = cphys true pa := by
    rw [translatedByte, h.translate_flushed, h.realmm]
  have hreport : m.probeValid code := by
    rw [probeValid, hvalid]
    decide
  rw [ProbeAgrees, hbyte, htrans, cphys_and_not_nodeBits]
  exact ⟨fun hagree => hagree hreport, fun hnode _ => hnode⟩

/-- Two mapped kernel addresses are both probed truthfully, and so never
reported in one frame while they occupy two, exactly when neither frame has a
node bit set. -/
theorem probes_agree_iff_node_bits_clear {m₁ m₂ : Machine} {code₁ code₂ : Bool}
    {va₁ va₂ pa₁ pa₂ pd₁ pd₂ : U32}
    (hsar₁ : m₁.mem.r32 (cmmuBase code₁ + CMMU_SAR) = va₁)
    (hsar₂ : m₂.mem.r32 (cmmuBase code₂ + CMMU_SAR) = va₂)
    (h₁ : m₁.MapsKernel code₁ va₁ pa₁ pd₁) (h₂ : m₂.MapsKernel code₂ va₂ pa₂ pd₂) :
    (m₁.ProbeAgrees code₁ va₁ ∧ m₂.ProbeAgrees code₂ va₂ ∧
      (m₁.translatedByte code₁ va₁ >>> 12 ≠ m₂.translatedByte code₂ va₂ >>> 12 →
        m₁.probedByte code₁ >>> 12 ≠ m₂.probedByte code₂ >>> 12)) ↔
      pa₁ &&& NODE_BITS = 0 ∧ pa₂ &&& NODE_BITS = 0 := by
  have hvalid₁ : m₁.probeValid code₁ := by
    rw [probeValid, (h₁.probe hsar₁).1]
    decide
  have hvalid₂ : m₂.probeValid code₂ := by
    rw [probeValid, (h₂.probe hsar₂).1]
    decide
  rw [← h₁.probeAgrees_iff hsar₁, ← h₂.probeAgrees_iff hsar₂]
  constructor
  · rintro ⟨hagree₁, hagree₂, -⟩
    exact ⟨hagree₁, hagree₂⟩
  · rintro ⟨hagree₁, hagree₂⟩
    refine ⟨hagree₁, hagree₂, ?_⟩
    rw [hagree₁ hvalid₁, hagree₂ hvalid₂]
    exact id

/-! ## A machine with memory above 8 MiB -/

/-- A kernel page table at `0x00111000` that maps one page at `0xC0000000`. -/
def probeMachine (frame : U32) : Machine :=
  let mem := (Mem.blank true).w32 (0xFFF7E000 + CMMU_SAPR) 0x00110001
  let mem := mem.w32 (0x00110000 + 0x300 * 4) 0x00111001
  let mem := mem.w32 0x00111000 (frame ||| 1)
  { Machine.fresh with mem := mem.w32 (0xFFF7E000 + CMMU_SAR) 0xC0000000 }

/-- Pages at `0xC0000000` and behind it, and the address `va` to probe. -/
def probing (va : U32) : Machine :=
  let mem := (probeMachine 0x00400000).mem.w32 0x00111004 0x00500001
  { Machine.fresh with mem := mem.w32 (0xFFF7E000 + CMMU_SAR) va }

theorem probing_maps : (probing 0xC0000000).MapsKernel false 0xC0000000 0x00400000 0x00400001 ∧
    (probing 0xC0001000).MapsKernel false 0xC0001000 0x00500000 0x00500001 :=
  ⟨⟨rfl, by decide, rfl, by decide, by decide, by decide +kernel⟩,
    ⟨rfl, by decide, rfl, by decide, by decide, by decide +kernel⟩⟩

/-- Two pages in two frames. -/
theorem probes_agree_at_low_frames :
    (probing 0xC0000000).ProbeAgrees false 0xC0000000 ∧
      (probing 0xC0001000).ProbeAgrees false 0xC0001000 ∧
      (probing 0xC0000000).probedByte false >>> 12 ≠ (probing 0xC0001000).probedByte false >>> 12 := by
  obtain ⟨hfirst, hsecond, hapart⟩ := (probes_agree_iff_node_bits_clear (by decide +kernel)
    (by decide +kernel) probing_maps.1 probing_maps.2).2 ⟨by decide, by decide⟩
  exact ⟨hfirst, hsecond, hapart (by decide +kernel)⟩

/-- The frame at 8 MiB is mapped and covered by no device mapping, and the
probe names it frame 0. -/
theorem probe_disagrees_at_high_frame :
    (probeMachine 0x00800000).MapsKernel false 0xC0000000 0x00800000 0x00800001 ∧
      (probeMachine 0x00800000).probedByte false = 0 ∧
      (probeMachine 0x00800000).translatedByte false 0xC0000000 = 0x00800000 ∧
      ¬(probeMachine 0x00800000).ProbeAgrees false 0xC0000000 := by
  have hprobed : (probeMachine 0x00800000).probedByte false = 0 := by decide +kernel
  have htrans : (probeMachine 0x00800000).translatedByte false 0xC0000000 = 0x00800000 := by
    decide +kernel
  have hvalid : (probeMachine 0x00800000).probeValid false := by
    unfold probeValid
    decide +kernel
  refine ⟨⟨rfl, by decide, rfl, by decide, by decide, by decide +kernel⟩, hprobed, htrans, ?_⟩
  intro hagree
  have heq := hagree hvalid
  rw [hprobed, htrans] at heq
  exact absurd heq (by decide)

end Machine

end Nx88
