import Nx88.Mmu.Faults
import Nx88.Memory.Bytes
/-!
# Translation by page

Addresses of one page translate alike: both fault or neither does, and when they
do not, they go to one frame, at their own offsets, and leave the same machine.
-/

namespace Nx88

open Lib.Words

namespace Machine

/-- The outcome `x` of a translation, carried over to the address `vb` of the
same page, is `y`. -/
structure Carried (vb : U32) (x y : U32 × Machine) : Prop where
  faults : y.2.ufault.pending = x.2.ufault.pending
  place : x.2.ufault.pending = false → y = (pageAddr x.1 ||| offsetOf vb, x.2)

theorem guardWrite_eq (m : Machine) (va : U32) (wp : Bool) (pa : U32) :
    m.guardWrite va wp pa =
      if wp = true ∧ m.cfg.procexp = true ∧ m.xlatWrite = true ∧ ¬m.ufault.pending = true
      then (0, { m with ufault := m.protectRecord va }) else (pa, m) := by
  unfold guardWrite cowFault
  cases wp with
  | false => rfl
  | true =>
    by_cases h : ¬m.cfg.procexp = true ∨ ¬m.xlatWrite = true ∨ m.ufault.pending = true
    · rw [if_pos rfl, if_pos h, if_neg]
      rintro ⟨-, hproc, hwrite, hpending⟩
      exact h.elim (fun hn => hn hproc) fun hn => hn.elim (fun hw => hw hwrite) hpending
    · rw [if_pos rfl, if_neg h]
      simp only [not_or, not_not] at h
      rw [if_pos ⟨rfl, h⟩]
      rfl

theorem guardWrite_carried (m : Machine) (va vb : U32) (wp : Bool) {pa pb : U32}
    (h : pb = pageAddr pa ||| offsetOf vb) :
    Carried vb (m.guardWrite va wp pa) (m.guardWrite vb wp pb) := by
  rw [guardWrite_eq, guardWrite_eq, h]
  split
  · exact ⟨rfl, fun hclear => nomatch hclear⟩
  · exact ⟨rfl, fun _ => rfl⟩

theorem tlbFill_page (m : Machine) (code : Bool) {va vb : U32} (h : pageAddr va = pageAddr vb)
    (pa : U32) : m.tlbFill code vb pa = m.tlbFill code va pa := by
  obtain ⟨h12, -⟩ := shift_of_page h
  unfold tlbFill tlbIndex tlbTag
  rw [h12]

theorem hit_page (m : Machine) (code : Bool) {va vb : U32} (h : pageAddr va = pageAddr vb) :
    m.tlb code (tlbIndex vb) = m.tlb code (tlbIndex va) ∧ tlbTag vb = tlbTag va := by
  obtain ⟨h12, -⟩ := shift_of_page h
  unfold tlbIndex tlbTag
  rw [h12]
  exact ⟨rfl, rfl⟩

theorem cphys_page (realmm : Bool) {va vb : U32} (h : pageAddr va = pageAddr vb) :
    cphys realmm vb = pageAddr (cphys realmm va) ||| offsetOf vb := by
  rw [← BitVec.toNat_inj, toNat_pageAddr, toNat_pageAddr] at h
  apply BitVec.eq_of_toNat_eq
  rw [toNat_pageAddr_or, toNat_cphys, toNat_cphys]
  cases realmm <;> simp <;> split_ifs <;> omega

variable {m : Machine} {va vb : U32} {code : Bool}

theorem missUser_carried (h : pageAddr va = pageAddr vb) (apr : U32) :
    Carried vb (m.missUser apr va code) (m.missUser apr vb code) := by
  have hwalk := walkFb_rebase m.mem m.ktabBias m.devmap apr code h.symm
  cases hva : m.mem.walkFb m.ktabBias m.devmap apr va code with
  | none =>
    rw [hva] at hwalk
    rw [missUser_none hva, missUser_none hwalk]
    split
    · exact ⟨rfl, fun hclear => nomatch hclear⟩
    · refine ⟨rfl, fun _ => Prod.ext ?_ rfl⟩
      change (if m.mem.realmm = true then cphys m.mem.realmm vb else vb) =
        pageAddr (if m.mem.realmm = true then cphys m.mem.realmm va else va) ||| offsetOf vb
      split
      · exact cphys_page m.mem.realmm h
      · rw [h, pageAddr_or_offsetOf]
  | some r =>
    rw [hva] at hwalk
    rw [missUser_some hva, missUser_some hwalk, tlbFill_page m code h]
    change Carried vb _ ((m.tlbFill code va (pageAddr (pageAddr r.1 ||| offsetOf vb) ||| _)).guardWrite
      vb _ _)
    rw [pageAddr_pageAddr_or]
    exact guardWrite_carried _ va vb _ rfl

theorem translateUser_carried (h : pageAddr va = pageAddr vb) :
    Carried vb (m.translateUser va code) (m.translateUser vb code) := by
  obtain ⟨hentry, htag⟩ := hit_page m code h
  unfold translateUser
  by_cases hoff : m.apr code m.aprOffset &&& 1 = 0
  · rw [if_pos hoff, if_pos hoff]
    refine ⟨rfl, fun _ => Prod.ext ?_ rfl⟩
    change vb = pageAddr va ||| offsetOf vb
    rw [h, pageAddr_or_offsetOf]
  · rw [if_neg hoff, if_neg hoff, hentry, htag]
    by_cases hit : (m.tlb code (tlbIndex va)).tag = tlbTag va
    · rw [if_pos hit, if_pos hit]
      refine guardWrite_carried m va vb _ ?_
      rw [pageAddr_pageAddr_or]
    · rw [if_neg hit, if_neg hit]
      exact missUser_carried h _

theorem translate_carried (h : pageAddr va = pageAddr vb)
    (huser : ¬(m.mem.realmm = true ∧ 0xC0000000 ≤ va)) :
    Carried vb (m.translate va code) (m.translate vb code) := by
  have huser' : ¬(m.mem.realmm = true ∧ 0xC0000000 ≤ vb) := by
    obtain ⟨-, -, hlow, -⟩ := shift_of_page h
    rw [← BitVec.not_lt, ← hlow, BitVec.not_lt]
    exact huser
  unfold translate
  rw [if_neg huser, if_neg huser']
  split
  · refine ⟨rfl, fun _ => Prod.ext ?_ rfl⟩
    change vb = pageAddr va ||| offsetOf vb
    rw [h, pageAddr_or_offsetOf]
  · exact translateUser_carried h

theorem translate_faults_page (h : pageAddr va = pageAddr vb) :
    (m.translate vb code).2.ufault.pending = (m.translate va code).2.ufault.pending := by
  by_cases hkernel : m.mem.realmm = true ∧ 0xC0000000 ≤ va
  · have hkernel' : 0xC0000000 ≤ vb := by
      obtain ⟨-, -, hlow, -⟩ := shift_of_page h
      rw [← BitVec.not_lt, ← hlow, BitVec.not_lt]
      exact hkernel.2
    rw [translate_kernel_ufault code (fun _ => hkernel.1) hkernel.2,
      translate_kernel_ufault code (fun _ => hkernel.1) hkernel']
  · exact (translate_carried h hkernel).faults

end Machine

end Nx88
