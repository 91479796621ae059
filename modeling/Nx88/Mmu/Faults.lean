import Nx88.Tlb.Lookup
/-!
# What a translation leaves behind

Whatever the mode, `translate` touches nothing but the cache, the kept base of
the scratch window and the fault record, and the only fault it records is one of
the address it was given.
-/

namespace Nx88

open Lib.Words

namespace Machine

/-! ## The frame -/

/-- Nothing but what translations keep for themselves has changed. -/
def Peeked (m m' : Machine) : Prop :=
  ∃ t u s, m' = { m with tlb := t, ufault := u, scratchCached := s }

theorem Peeked.refl (m : Machine) : Peeked m m := ⟨m.tlb, m.ufault, m.scratchCached, rfl⟩

theorem Peeked.trans {m m' m'' : Machine} (h₁ : Peeked m m') (h₂ : Peeked m' m'') :
    Peeked m m'' := by
  obtain ⟨t₁, u₁, s₁, rfl⟩ := h₁
  obtain ⟨t₂, u₂, s₂, rfl⟩ := h₂
  exact ⟨t₂, u₂, s₂, rfl⟩

theorem Peeked.cpu {m m' : Machine} (h : Peeked m m') : m'.cpu = m.cpu := by
  obtain ⟨t, u, s, rfl⟩ := h
  rfl

theorem Peeked.mem {m m' : Machine} (h : Peeked m m') : m'.mem = m.mem := by
  obtain ⟨t, u, s, rfl⟩ := h
  rfl

theorem Peeked.dev {m m' : Machine} (h : Peeked m m') : m'.dev = m.dev := by
  obtain ⟨t, u, s, rfl⟩ := h
  rfl

theorem Peeked.cfg {m m' : Machine} (h : Peeked m m') : m'.cfg = m.cfg := by
  obtain ⟨t, u, s, rfl⟩ := h
  rfl

theorem Peeked.xlatWrite {m m' : Machine} (h : Peeked m m') : m'.xlatWrite = m.xlatWrite := by
  obtain ⟨t, u, s, rfl⟩ := h
  rfl

theorem peeked_ufault (m : Machine) (u : UFault) : Peeked m { m with ufault := u } :=
  ⟨m.tlb, u, m.scratchCached, rfl⟩

theorem peeked_tlbFill (m : Machine) (code : Bool) (va pa : U32) :
    Peeked m (m.tlbFill code va pa) := ⟨_, m.ufault, m.scratchCached, rfl⟩

theorem Translated.peeked {vas : List U32} {m m' : Machine} (h : Translated vas m m') :
    Peeked m m' := by
  obtain ⟨t, u, s, heq, -⟩ := h
  exact ⟨t, u, s, heq⟩

theorem guardWrite_peeked (m : Machine) (va : U32) (wp : Bool) (pa : U32) :
    Peeked m (m.guardWrite va wp pa).2 :=
  (show Translated [] m (m.guardWrite va wp pa).2 from guardWrite_translated m va wp pa).peeked

theorem missUser_peeked (m : Machine) (apr va : U32) (code : Bool) :
    Peeked m (m.missUser apr va code).2 := by
  cases h : m.mem.walkFb m.ktabBias m.devmap apr va code with
  | none =>
    rw [missUser_none h]
    split
    · exact peeked_ufault m _
    · exact Peeked.refl m
  | some r =>
    rw [missUser_some h]
    exact (peeked_tlbFill m _ _ _).trans (guardWrite_peeked _ _ _ _)

theorem translateUser_peeked (m : Machine) (va : U32) (code : Bool) :
    Peeked m (m.translateUser va code).2 := by
  unfold translateUser
  simp only
  split
  · exact Peeked.refl m
  split
  · exact guardWrite_peeked _ _ _ _
  · exact missUser_peeked _ _ _ _

theorem translate_peeked (m : Machine) (va : U32) (code : Bool) :
    Peeked m (m.translate va code).2 := by
  cases hreal : m.mem.realmm with
  | true => exact (translate_translated hreal).peeked
  | false =>
    unfold translate
    split
    · exact Peeked.refl m
    · rw [if_neg (fun h => by simp [hreal] at h)]
      exact translateUser_peeked m va code

/-! ## The recorded fault -/

theorem cachedTable_ufault (m : Machine) (va fallback : U32) (code : Bool) :
    (m.cachedTable va fallback code).2.ufault = m.ufault := by
  unfold cachedTable
  simp only
  split
  · rfl
  · cases m.walkEnabled (m.apr code CMMU_SAPR) va with
    | none => rfl
    | some r => rfl

theorem translateKernel_ufault (m : Machine) (va : U32) (code : Bool) :
    (m.translateKernel va code).2.ufault = m.ufault := by
  unfold translateKernel
  simp only
  split
  · rfl
  split
  · exact cachedTable_ufault m _ _ _
  · rfl

theorem noteScratch_ufault (m : Machine) (v : U32) : (m.noteScratch v).ufault = m.ufault := by
  unfold noteScratch
  split
  · rfl
  · rfl

theorem scratchBase_ufault (m : Machine) : m.scratchBase.2.ufault = m.ufault := by
  unfold scratchBase
  split
  · exact (noteScratch_ufault _ _).trans (translateKernel_ufault m _ _)
  · rfl

theorem translateDevice_ufault (m : Machine) (va : U32) (code : Bool) :
    (m.translateDevice va code).2.ufault = m.ufault := by
  unfold translateDevice
  simp only
  split
  · exact scratchBase_ufault m
  · exact (cachedTable_ufault _ _ _ _).trans (scratchBase_ufault m)

theorem translate_kernel_ufault {m : Machine} {va : U32} (code : Bool)
    (hreal : m.cfg.translateOn = true → m.mem.realmm = true) (hva : 0xC0000000 ≤ va) :
    (m.translate va code).2.ufault = m.ufault := by
  unfold translate
  split
  · rfl
  · rename_i hon
    rw [if_pos ⟨hreal (not_not.1 hon), hva⟩]
    split
    · cases m.walkEnabled (m.apr code CMMU_SAPR) va with
      | none => rfl
      | some r => rfl
    split
    · exact translateDevice_ufault m va code
    · exact translateKernel_ufault m va code

def missRecord (m : Machine) (va : U32) (code : Bool) : UFault :=
  ⟨true, va, m.cpu.pc, code, false, 4⟩

def protectRecord (m : Machine) (va : U32) : UFault := ⟨true, va, m.cpu.pc, false, true, 4⟩

/-- The fault record `u` that a translation of `va` leaves: the one it found,
or, when that was clear, one of `va`. -/
def FaultOf (m : Machine) (va : U32) (code : Bool) (u : UFault) : Prop :=
  u = m.ufault ∨
    m.ufault.pending = false ∧
      (u = m.missRecord va code ∨ m.xlatWrite = true ∧ u = m.protectRecord va)

theorem guardWrite_faultOf (m : Machine) (va : U32) (code wp : Bool) (pa : U32) :
    FaultOf m va code (m.guardWrite va wp pa).2.ufault := by
  have houtcome := congrArg Prod.snd (guardWrite_outcome m va wp pa)
  by_cases h : wp = true ∧ m.cfg.procexp = true ∧ m.xlatWrite = true ∧ ¬m.ufault.pending = true
  · rw [if_pos h] at houtcome
    exact .inr ⟨Bool.eq_false_iff.2 h.2.2.2, .inr ⟨h.2.2.1, houtcome⟩⟩
  · rw [if_neg h] at houtcome
    exact .inl houtcome

theorem missUser_faultOf (m : Machine) (apr va : U32) (code : Bool) :
    FaultOf m va code (m.missUser apr va code).2.ufault := by
  cases h : m.mem.walkFb m.ktabBias m.devmap apr va code with
  | none =>
    rw [missUser_none h]
    split
    · rename_i hfault
      exact .inr ⟨Bool.eq_false_iff.2 hfault.2, .inl rfl⟩
    · exact .inl rfl
  | some r =>
    rw [missUser_some h]
    exact guardWrite_faultOf (m.tlbFill code va _) va code _ _

theorem translateUser_faultOf (m : Machine) (va : U32) (code : Bool) :
    FaultOf m va code (m.translateUser va code).2.ufault := by
  unfold translateUser
  simp only
  split
  · exact .inl rfl
  split
  · exact guardWrite_faultOf m va code _ _
  · exact missUser_faultOf m _ va code

theorem translate_faultOf (m : Machine) (va : U32) (code : Bool) :
    FaultOf m va code (m.translate va code).2.ufault := by
  by_cases hkernel : m.mem.realmm = true ∧ 0xC0000000 ≤ va
  · exact .inl (translate_kernel_ufault code (fun _ => hkernel.1) hkernel.2)
  · unfold translate
    rw [if_neg hkernel]
    split
    · exact .inl rfl
    · exact translateUser_faultOf m va code

end Machine

end Nx88
