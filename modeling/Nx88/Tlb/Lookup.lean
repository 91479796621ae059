import Nx88.Tlb.Walk
/-!
# One translation, cached and not

An entry is fresh when it holds what a lookup would put there now.  With the
entries it consults fresh, `translate` gives the same address and leaves the
same fault record as it would with nothing cached; and every entry it writes
is one that a lookup has just produced.
-/

namespace Nx88

open Lib.Words

namespace Machine

/-! ## Hits -/

def Hit (m : Machine) (va : U32) (code : Bool) : Prop :=
  (m.tlb code (tlbIndex va)).tag = tlbTag va

instance (m : Machine) (va : U32) (code : Bool) : Decidable (m.Hit va code) :=
  inferInstanceAs (Decidable ((m.tlb code (tlbIndex va)).tag = tlbTag va))

theorem not_hit_tlbFlush (m : Machine) (va : U32) (code : Bool) : ¬m.tlbFlush.Hit va code :=
  tlbTag_ne_zero va

theorem tlbTag_inj {va vb : U32} (h : tlbTag va = tlbTag vb) : pageAddr va = pageAddr vb := by
  have hmask : ∀ a : U32, a >>> 12 = tlbTag a &&& 0x7FFFFFFF := by
    intro a
    unfold tlbTag
    ext i hi
    interval_cases i <;> simp
  rw [pageAddr_eq_iff, hmask, hmask, h]

/-- The entry for `va` holds what a lookup would give now. -/
def Fresh (m : Machine) (va : U32) (code : Bool) : Prop :=
  m.Hit va code →
    (m.walked va code).map (cacheWord va) = some (m.tlb code (tlbIndex va)).pa

theorem fresh_tlbFlush (m : Machine) (va : U32) (code : Bool) : m.tlbFlush.Fresh va code :=
  fun h => absurd h (not_hit_tlbFlush m va code)

theorem Fresh.walked {m : Machine} {va : U32} {code : Bool} (h : m.Fresh va code)
    (hit : m.Hit va code) :
    ∃ r, m.walked va code = some r ∧ (m.tlb code (tlbIndex va)).pa = cacheWord va r := by
  obtain ⟨r, hr, hword⟩ := Option.map_eq_some_iff.1 (h hit)
  exact ⟨r, hr, hword.symm⟩

/-! ## The same outcome -/

/-- Same address, and the same machine up to the cache. -/
def SameOutcome (x y : U32 × Machine) : Prop := x.1 = y.1 ∧ x.2.tlbFlush = y.2.tlbFlush

theorem SameOutcome.symm {x y : U32 × Machine} (h : SameOutcome x y) : SameOutcome y x :=
  ⟨h.1.symm, h.2.symm⟩

theorem SameOutcome.trans {x y z : U32 × Machine} (h₁ : SameOutcome x y)
    (h₂ : SameOutcome y z) : SameOutcome x z :=
  ⟨h₁.1.trans h₂.1, h₁.2.trans h₂.2⟩

@[simp] theorem tlbFlush_ufault (m : Machine) : m.tlbFlush.ufault = m.ufault := rfl

@[simp] theorem tlbFlush_scratchCached (m : Machine) :
    m.tlbFlush.scratchCached = m.scratchCached := rfl

theorem noteScratch_tlbFlush (m : Machine) (v : U32) :
    (m.noteScratch v).tlbFlush = m.tlbFlush.noteScratch v := by
  unfold noteScratch
  split <;> rfl

theorem walked_kernel {m : Machine} {va : U32} (code : Bool) (hva : 0xC0000000 ≤ va) :
    m.walked va code = m.walkEnabled (m.apr code CMMU_SAPR) va := if_pos hva

theorem walked_user {m : Machine} {va : U32} (code : Bool) (hva : ¬0xC0000000 ≤ va) :
    m.walked va code = m.mem.walkFb m.ktabBias m.devmap (m.apr code m.aprOffset) va code :=
  if_neg hva

theorem cacheWord_kernel {va : U32} (hva : 0xC0000000 ≤ va) (r : U32 × U32) :
    cacheWord va r = pageAddr r.1 := by
  rw [cacheWord, if_pos (Or.inl hva)]
  exact BitVec.or_zero

theorem cachedTable_sameOutcome {m : Machine} {va fallback : U32} {code : Bool}
    (hva : 0xC0000000 ≤ va) (h : m.Fresh va code) :
    SameOutcome (m.cachedTable va fallback code) (m.tlbFlush.cachedTable va fallback code) := by
  have hmiss := not_hit_tlbFlush m va code
  unfold Hit at hmiss
  unfold cachedTable
  simp only [if_neg hmiss, tlbFlush_walkEnabled, tlbFlush_apr]
  by_cases hit : m.Hit va code
  · obtain ⟨r, hr, hword⟩ := h.walked hit
    have hpa := walked_offset hr
    rw [walked_kernel code hva] at hr
    rw [cacheWord_kernel hva] at hword
    unfold Hit at hit
    rw [if_pos hit, hr, hword, hpa]
    exact ⟨rfl, rfl⟩
  · unfold Hit at hit
    rw [if_neg hit]
    cases m.walkEnabled (m.apr code CMMU_SAPR) va with
    | none => exact ⟨rfl, rfl⟩
    | some r => exact ⟨rfl, rfl⟩

theorem translateKernel_sameOutcome {m : Machine} {va : U32} {code : Bool}
    (hva : 0xC0000000 ≤ va) (h : m.Fresh va code) :
    SameOutcome (m.translateKernel va code) (m.tlbFlush.translateKernel va code) := by
  unfold translateKernel
  rw [tlbFlush_devmap, tlbFlush_cfg]
  by_cases hdev : devmapLookup m.devmap (pageAddr va) ≠ 0
  · rw [if_pos hdev, if_pos hdev]
    exact ⟨rfl, rfl⟩
  · rw [if_neg hdev, if_neg hdev]
    by_cases hphys : m.cfg.kdataOff ≠ 0
    · rw [if_pos hphys, if_pos hphys]
      exact cachedTable_sameOutcome hva h
    · rw [if_neg hphys, if_neg hphys]
      exact ⟨rfl, rfl⟩

/-- `scratchBase` translates the address of the kernel global it reads. -/
def ReadsScratch (m : Machine) : Prop :=
  m.scratchCached = 0 ∧ m.cfg.kdataOff ≠ 0 ∧ m.cfg.translateOn = true

theorem scratchBase_sameOutcome {m : Machine}
    (h : m.ReadsScratch → m.Fresh 0xC0014058 false) :
    SameOutcome m.scratchBase m.tlbFlush.scratchBase := by
  unfold scratchBase
  rw [tlbFlush_scratchCached, tlbFlush_cfg]
  by_cases hread : m.scratchCached = 0 ∧ m.cfg.kdataOff ≠ 0 ∧ m.cfg.translateOn = true
  · obtain ⟨haddr, hstate⟩ := translateKernel_sameOutcome (by decide) (h hread)
    have hmem := congrArg Machine.mem hstate
    simp only [tlbFlush_mem] at hmem
    rw [if_pos hread, if_pos hread]
    have hnote : ∀ v, ((m.translateKernel 0xC0014058 false).2.noteScratch v).tlbFlush =
        ((m.tlbFlush.translateKernel 0xC0014058 false).2.noteScratch v).tlbFlush := by
      intro v
      rw [noteScratch_tlbFlush, noteScratch_tlbFlush, hstate]
    simp only [haddr, hmem]
    have hcached := fun v => congrArg Machine.scratchCached (hnote v)
    exact ⟨hcached _, hnote _⟩
  · rw [if_neg hread, if_neg hread]
    exact ⟨rfl, rfl⟩

/-! ## What a translation writes -/

/-- A translation changes the fault record, the kept base of the scratch window
and the cache.  Each entry it writes is for one of the addresses `vas` and
holds what a lookup has just given. -/
def Translated (vas : List U32) (m m' : Machine) : Prop :=
  ∃ t u s, m' = { m with tlb := t, ufault := u, scratchCached := s } ∧
    ∀ code i, t code i = m.tlb code i ∨
      ∃ va ∈ vas, i = tlbIndex va ∧ (t code i).tag = tlbTag va ∧
        (m.walked va code).map (cacheWord va) = some (t code i).pa

variable {vas : List U32}

theorem Translated.refl (m : Machine) : Translated vas m m :=
  ⟨m.tlb, m.ufault, m.scratchCached, rfl, fun _ _ => .inl rfl⟩

theorem Translated.trans {m m' m'' : Machine} (h₁ : Translated vas m m')
    (h₂ : Translated vas m' m'') : Translated vas m m'' := by
  obtain ⟨t₁, u₁, s₁, rfl, hfill₁⟩ := h₁
  obtain ⟨t₂, u₂, s₂, rfl, hfill₂⟩ := h₂
  refine ⟨t₂, u₂, s₂, rfl, fun code i => ?_⟩
  rcases hfill₂ code i with hkept | hfilled
  · rw [hkept]
    exact hfill₁ code i
  · exact .inr hfilled

theorem Translated.mono {vas' : List U32} {m m' : Machine} (h : Translated vas m m')
    (hsub : ∀ va ∈ vas, va ∈ vas') : Translated vas' m m' := by
  obtain ⟨t, u, s, rfl, hfill⟩ := h
  refine ⟨t, u, s, rfl, fun code i => (hfill code i).imp_right ?_⟩
  rintro ⟨va, hva, hrest⟩
  exact ⟨va, hsub va hva, hrest⟩

theorem Translated.walked_eq {m m' : Machine} (h : Translated vas m m') (va : U32)
    (code : Bool) : m'.walked va code = m.walked va code := by
  obtain ⟨t, u, s, rfl, -⟩ := h
  rfl

theorem translated_noFill {m : Machine} (u : UFault) (s : U32) :
    Translated vas m { m with ufault := u, scratchCached := s } :=
  ⟨m.tlb, u, s, rfl, fun _ _ => .inl rfl⟩

theorem translated_tlbFill {m : Machine} {va : U32} {code : Bool} {r : U32 × U32}
    (h : m.walked va code = some r) :
    Translated [va] m (m.tlbFill code va (cacheWord va r)) := by
  refine ⟨_, m.ufault, m.scratchCached, rfl, fun code' i => ?_⟩
  by_cases hcode : code' = code
  · subst hcode
    by_cases hi : i = tlbIndex va
    · subst hi
      refine .inr ⟨va, List.mem_singleton_self va, rfl, ?_, ?_⟩
      · rw [Function.update_self, Function.update_self]
      · rw [Function.update_self, Function.update_self, h, Option.map_some]
    · left
      rw [Function.update_self, Function.update_of_ne hi]
  · left
    rw [Function.update_of_ne hcode]

theorem cowFault_cases (m : Machine) (va : U32) :
    m.cowFault va = none ∨
      m.cowFault va = some { m with ufault := ⟨true, va, m.cpu.pc, false, true, 4⟩ } := by
  unfold cowFault
  split
  · exact .inl rfl
  · exact .inr rfl

theorem guardWrite_outcome (m : Machine) (va : U32) (wp : Bool) (pa : U32) :
    ((m.guardWrite va wp pa).1, (m.guardWrite va wp pa).2.ufault) =
      if wp = true ∧ m.cfg.procexp = true ∧ m.xlatWrite = true ∧ ¬m.ufault.pending = true
      then (0, ⟨true, va, m.cpu.pc, false, true, 4⟩) else (pa, m.ufault) := by
  unfold guardWrite cowFault
  cases wp with
  | false => rfl
  | true =>
    by_cases h : ¬m.cfg.procexp = true ∨ ¬m.xlatWrite = true ∨ m.ufault.pending = true
    · rw [if_pos rfl, if_pos h, if_neg]
      rintro ⟨-, hproc, hwrite, hpending⟩
      exact h.elim (fun hn => hn hproc) fun hn => hn.elim (fun hw => hw hwrite) hpending
    · simp only [not_or, not_not] at h
      rw [if_pos rfl, if_neg, if_pos ⟨rfl, h⟩]
      rintro (hn | hn | hn)
      · exact hn h.1
      · exact hn h.2.1
      · exact h.2.2 hn

theorem guardWrite_translated (m : Machine) (va : U32) (wp : Bool) (pa : U32) :
    Translated vas m (m.guardWrite va wp pa).2 := by
  unfold guardWrite
  cases wp with
  | false => exact Translated.refl m
  | true =>
    rcases cowFault_cases m va with h | h
    · rw [if_pos rfl, h]
      exact Translated.refl m
    · rw [if_pos rfl, h]
      exact translated_noFill _ m.scratchCached

theorem cachedTable_translated {m : Machine} {va fallback : U32} {code : Bool}
    (hva : 0xC0000000 ≤ va) : Translated [va] m (m.cachedTable va fallback code).2 := by
  unfold cachedTable
  simp only
  split
  · exact Translated.refl m
  · cases hwalk : m.walkEnabled (m.apr code CMMU_SAPR) va with
    | none => exact Translated.refl m
    | some r =>
      rw [← walked_kernel code hva] at hwalk
      have hfill := translated_tlbFill hwalk
      rw [cacheWord_kernel hva] at hfill
      exact hfill

theorem translateKernel_translated {m : Machine} {va : U32} {code : Bool}
    (hva : 0xC0000000 ≤ va) : Translated [va] m (m.translateKernel va code).2 := by
  unfold translateKernel
  simp only
  split
  · exact Translated.refl m
  split
  · exact cachedTable_translated hva
  · exact Translated.refl m

theorem noteScratch_translated (m : Machine) (v : U32) :
    Translated vas m (m.noteScratch v) := by
  unfold noteScratch
  split
  · exact translated_noFill m.ufault _
  · exact Translated.refl m

theorem scratchBase_translated (m : Machine) :
    Translated [0xC0014058] m m.scratchBase.2 := by
  unfold scratchBase
  split
  · have hkernel : Translated [0xC0014058] m (m.translateKernel 0xC0014058 false).2 :=
      translateKernel_translated (by decide)
    exact hkernel.trans (noteScratch_translated _ _)
  · exact Translated.refl m

theorem translateDevice_translated {m : Machine} {va : U32} {code : Bool}
    (hva : 0xE0000000 ≤ va) :
    Translated [va, 0xC0014058] m (m.translateDevice va code).2 := by
  have hkernel : 0xC0000000 ≤ va := BitVec.le_trans (by decide) hva
  have hscratch : Translated [va, 0xC0014058] m m.scratchBase.2 :=
    (scratchBase_translated m).mono (by simp)
  unfold translateDevice
  simp only
  split
  · exact hscratch
  · exact hscratch.trans ((cachedTable_translated hkernel).mono (by simp))

/-! ## User space -/

theorem cacheWord_user {va : U32} (hva : ¬0xC0000000 ≤ va) (r : U32 × U32) :
    cacheWord va r = pageAddr r.1 ||| if r.2 &&& PTE_WP ≠ 0 then 1 else 0 := by
  unfold cacheWord
  by_cases hwp : r.2 &&& PTE_WP = 0
  · rw [if_pos (Or.inr hwp), if_neg (not_not.2 hwp)]
  · rw [if_neg (not_or.2 ⟨hva, hwp⟩), if_pos hwp]

theorem pageAddr_cacheWord {va : U32} (hva : ¬0xC0000000 ≤ va) (r : U32 × U32) :
    pageAddr (cacheWord va r) = pageAddr r.1 := by
  rw [cacheWord_user hva]
  split
  · exact pageAddr_pageAddr_or_one r.1
  · simp only [BitVec.ofNat_eq_ofNat, BitVec.or_zero, pageAddr_pageAddr]

theorem cacheWord_protected {va : U32} (hva : ¬0xC0000000 ≤ va) (r : U32 × U32) :
    cacheWord va r &&& 1 ≠ 0 ↔ r.2 &&& PTE_WP ≠ 0 := by
  rw [cacheWord_user hva]
  split
  · rename_i hwp
    refine iff_of_true ?_ hwp
    rw [pageAddr_or_one_and_one]
    decide
  · rename_i hwp
    refine iff_of_false ?_ hwp
    rw [BitVec.ofNat_eq_ofNat, BitVec.or_zero]
    exact not_not.2 (pageAddr_and_one r.1)

theorem cowFault_tlbFlush (m : Machine) (va : U32) :
    m.tlbFlush.cowFault va = (m.cowFault va).map tlbFlush := by
  unfold cowFault
  by_cases h : ¬m.cfg.procexp = true ∨ ¬m.xlatWrite = true ∨ m.ufault.pending = true
  · rw [if_pos h]
    exact if_pos h
  · rw [if_neg h]
    exact if_neg h

theorem guardWrite_sameOutcome {m n : Machine} (h : m.tlbFlush = n.tlbFlush) (va : U32)
    (wp : Bool) (pa : U32) :
    SameOutcome (m.guardWrite va wp pa) (n.guardWrite va wp pa) := by
  have hflush : ∀ k : Machine,
      SameOutcome (k.guardWrite va wp pa) (k.tlbFlush.guardWrite va wp pa) := by
    intro k
    unfold guardWrite
    cases wp with
    | false => exact ⟨rfl, rfl⟩
    | true =>
      rw [if_pos rfl, if_pos rfl, cowFault_tlbFlush]
      cases k.cowFault va with
      | none => exact ⟨rfl, rfl⟩
      | some k' => exact ⟨rfl, rfl⟩
  have hm := hflush m
  rw [h] at hm
  exact hm.trans (hflush n).symm

theorem missUser_none {m : Machine} {apr va : U32} {code : Bool}
    (h : m.mem.walkFb m.ktabBias m.devmap apr va code = none) :
    m.missUser apr va code =
      if m.cfg.procexp = true ∧ ¬m.ufault.pending = true then
        (0, { m with ufault := ⟨true, va, m.cpu.pc, code, false, 4⟩ })
      else (if m.mem.realmm = true then cphys m.mem.realmm va else va, m) := by
  unfold missUser
  rw [h]

theorem missUser_some {m : Machine} {apr va : U32} {code : Bool} {r : U32 × U32}
    (h : m.mem.walkFb m.ktabBias m.devmap apr va code = some r) :
    m.missUser apr va code =
      (m.tlbFill code va (pageAddr r.1 ||| if r.2 &&& PTE_WP ≠ 0 then 1 else 0)).guardWrite va
        (r.2 &&& PTE_WP ≠ 0) r.1 := by
  unfold missUser
  rw [h]
  simp only [decide_eq_true_eq]

theorem missUser_sameOutcome (m : Machine) (apr va : U32) (code : Bool) :
    SameOutcome (m.missUser apr va code) (m.tlbFlush.missUser apr va code) := by
  cases h : m.mem.walkFb m.ktabBias m.devmap apr va code with
  | none =>
    rw [missUser_none h, missUser_none (m := m.tlbFlush) h]
    rw [tlbFlush_cfg, tlbFlush_ufault]
    by_cases hfault : m.cfg.procexp = true ∧ ¬m.ufault.pending = true
    · rw [if_pos hfault, if_pos hfault]
      exact ⟨rfl, rfl⟩
    · rw [if_neg hfault, if_neg hfault]
      exact ⟨rfl, rfl⟩
  | some r =>
    rw [missUser_some h, missUser_some (m := m.tlbFlush) h]
    exact guardWrite_sameOutcome (by rfl) _ _ _

theorem translateUser_sameOutcome {m : Machine} {va : U32} {code : Bool}
    (hva : ¬0xC0000000 ≤ va) (h : m.Fresh va code) :
    SameOutcome (m.translateUser va code) (m.tlbFlush.translateUser va code) := by
  have hmiss := not_hit_tlbFlush m va code
  unfold Hit at hmiss
  unfold translateUser
  rw [show m.tlbFlush.apr code m.tlbFlush.aprOffset = m.apr code m.aprOffset from rfl]
  by_cases hon : m.apr code m.aprOffset &&& 1 = 0
  · rw [if_pos hon, if_pos hon]
    exact ⟨rfl, rfl⟩
  rw [if_neg hon, if_neg hon]
  simp only [if_neg hmiss]
  by_cases hit : m.Hit va code
  · obtain ⟨r, hr, hword⟩ := h.walked hit
    have hpa := walked_offset hr
    rw [walked_user code hva] at hr
    unfold Hit at hit
    rw [if_pos hit, hword, pageAddr_cacheWord hva, hpa]
    rw [missUser_some (m := m.tlbFlush) hr]
    simp only [cacheWord_protected hva]
    exact guardWrite_sameOutcome (by rfl) _ _ _
  · unfold Hit at hit
    rw [if_neg hit]
    exact missUser_sameOutcome _ _ _ _

theorem missUser_translated {m : Machine} {va : U32} {code : Bool} (hva : ¬0xC0000000 ≤ va) :
    Translated [va] m (m.missUser (m.apr code m.aprOffset) va code).2 := by
  cases h : m.mem.walkFb m.ktabBias m.devmap (m.apr code m.aprOffset) va code with
  | none =>
    rw [missUser_none h]
    split
    · exact translated_noFill _ m.scratchCached
    · exact Translated.refl m
  | some r =>
    rw [missUser_some h]
    rw [← walked_user code hva] at h
    have hfill := translated_tlbFill h
    rw [cacheWord_user hva] at hfill
    exact hfill.trans (guardWrite_translated _ _ _ _)

theorem translateUser_translated {m : Machine} {va : U32} {code : Bool}
    (hva : ¬0xC0000000 ≤ va) : Translated [va] m (m.translateUser va code).2 := by
  unfold translateUser
  simp only
  split
  · exact Translated.refl m
  split
  · exact guardWrite_translated _ _ _ _
  · exact missUser_translated hva

/-! ## Device space -/

theorem tlbTag_ne_scratch {va : U32} (hva : 0xE0000000 ≤ va) : tlbTag 0xC0014058 ≠ tlbTag va := by
  intro h
  have hpage := congrArg BitVec.toNat (tlbTag_inj h)
  rw [toNat_pageAddr, toNat_pageAddr] at hpage
  rw [BitVec.le_def] at hva
  simp at hva hpage
  omega

theorem fresh_scratchBase {m : Machine} {va : U32} {code : Bool} (hva : 0xE0000000 ≤ va)
    (h : m.Fresh va code) : m.scratchBase.2.Fresh va code := by
  intro hit
  have htranslated := scratchBase_translated m
  rw [htranslated.walked_eq]
  obtain ⟨t, u, s, heq, hfill⟩ := htranslated
  unfold Hit at hit
  rw [heq] at hit ⊢
  rcases hfill code (tlbIndex va) with hkept | ⟨v, hv, -, htag, -⟩
  · simp only [hkept] at hit ⊢
    exact h hit
  · rw [List.mem_singleton.1 hv] at htag
    exact absurd (htag.symm.trans hit) (tlbTag_ne_scratch hva)

theorem cachedTable_congr {m n : Machine} {va fallback : U32} {code : Bool}
    (hva : 0xC0000000 ≤ va) (hm : m.Fresh va code) (hn : n.Fresh va code)
    (h : m.tlbFlush = n.tlbFlush) :
    SameOutcome (m.cachedTable va fallback code) (n.cachedTable va fallback code) := by
  have hflush : SameOutcome (m.cachedTable va fallback code)
      (m.tlbFlush.cachedTable va fallback code) := cachedTable_sameOutcome hva hm
  rw [h] at hflush
  exact hflush.trans (cachedTable_sameOutcome hva hn).symm

theorem translateDevice_sameOutcome {m : Machine} {va : U32} {code : Bool}
    (hva : 0xE0000000 ≤ va) (h : m.Fresh va code)
    (hscratch : m.ReadsScratch → m.Fresh 0xC0014058 false) :
    SameOutcome (m.translateDevice va code) (m.tlbFlush.translateDevice va code) := by
  obtain ⟨hbase, hstate⟩ := scratchBase_sameOutcome hscratch
  unfold translateDevice
  simp only [hbase]
  split
  · exact ⟨rfl, hstate⟩
  · exact cachedTable_congr (BitVec.le_trans (by decide) hva) (fresh_scratchBase hva h)
      (fresh_scratchBase hva (fresh_tlbFlush m va code)) hstate

/-! ## The whole of `translate` -/

/-- The entries a translation of `va` may read are fresh. -/
def FreshFor (m : Machine) (va : U32) (code : Bool) : Prop :=
  m.Fresh va code ∧ (0xE0000000 ≤ va → m.ReadsScratch → m.Fresh 0xC0014058 false)

theorem translate_sameOutcome {m : Machine} {va : U32} {code : Bool}
    (hreal : m.mem.realmm = true) (h : m.FreshFor va code) :
    SameOutcome (m.translate va code) (m.tlbFlush.translate va code) := by
  unfold translate
  rw [tlbFlush_cfg, tlbFlush_mem]
  split
  · exact ⟨rfl, rfl⟩
  split
  · rename_i hkernel
    split
    · simp only [tlbFlush_walkEnabled, tlbFlush_apr]
      cases m.walkEnabled (m.apr code CMMU_SAPR) va with
      | none => exact ⟨rfl, rfl⟩
      | some r => exact ⟨rfl, rfl⟩
    split
    · rename_i hdevice
      exact translateDevice_sameOutcome hdevice h.1 (h.2 hdevice)
    · exact translateKernel_sameOutcome hkernel.2 h.1
  · rename_i huser
    exact translateUser_sameOutcome (fun hva => huser ⟨hreal, hva⟩) h.1

theorem translate_translated {m : Machine} {va : U32} {code : Bool}
    (hreal : m.mem.realmm = true) :
    Translated [va, 0xC0014058] m (m.translate va code).2 := by
  unfold translate
  split
  · exact Translated.refl m
  split
  · rename_i hkernel
    split
    · cases m.walkEnabled (m.apr code CMMU_SAPR) va with
      | none => exact Translated.refl m
      | some r => exact Translated.refl m
    split
    · rename_i hdevice
      exact translateDevice_translated hdevice
    · exact (translateKernel_translated hkernel.2).mono (by simp)
  · rename_i huser
    exact (translateUser_translated fun hva => huser ⟨hreal, hva⟩).mono (by simp)

end Machine

end Nx88
