import Nx88.Reset
import Nx88.Lib.Query
/-!
# What a table walk consults

The walks as queries over memory words.  `consulted` collects the descriptor
words a walk reads, valid or not; as long as these hold what they held, the
walk comes out as it did.  A walk depends on the page of an address only, up to
the offset it carries through.
-/

namespace Nx88

open Lib Lib.Words

/-! ## Walks as queries -/

def descriptorQuery (ktabBias pa : U32) (biased : Bool) : Query U32 U32 U32 :=
  .ask pa fun v =>
    if v &&& 1 = 0 ∧ biased then
      .ask ((pa &&& 0x3FFFFFFF) + ktabBias) fun alt => .ret (if alt &&& 1 ≠ 0 then alt else v)
    else .ret v

theorem answer_descriptorQuery (m : Mem) (ktabBias pa : U32) (biased : Bool) :
    (descriptorQuery ktabBias pa biased).answer m.r32 = m.tabR32 ktabBias pa biased := by
  simp only [descriptorQuery, Mem.tabR32, Query.answer_ask, Query.answer_ite, Query.answer_ret]

def walkQuery (ktabBias apr vaddr : U32) : Query U32 U32 (Option (U32 × U32)) :=
  let segtab := pageAddr apr
  if segtab = 0 then .ret none
  else
    let biased := decide (ktabBias ≠ 0 ∧ vaddr < 0xC0000000)
    (descriptorQuery ktabBias (segtab + ((vaddr >>> 22) &&& 0x3FF) * 4) biased).bind fun sdesc =>
      if sdesc &&& 1 = 0 then .ret none
      else
        (descriptorQuery ktabBias (pageAddr sdesc + ((vaddr >>> 12) &&& 0x3FF) * 4)
          biased).bind fun pdesc =>
          if pdesc &&& 1 = 0 then .ret none
          else .ret (some (pageAddr pdesc ||| offsetOf vaddr, pdesc))

theorem answer_walkQuery (m : Mem) (ktabBias apr vaddr : U32) :
    (walkQuery ktabBias apr vaddr).answer m.r32 = m.mmuWalk ktabBias apr vaddr := by
  simp only [walkQuery, Mem.mmuWalk, Query.answer_ite, Query.answer_bind, Query.answer_ret,
    answer_descriptorQuery]

/-- The walk with its fallbacks; `dp` is what the device map holds for the page. -/
def walkFbQuery (ktabBias dp : U32) (realmm : Bool) (apr vaddr : U32) (code : Bool) :
    Query U32 U32 (Option (U32 × U32)) :=
  (walkQuery ktabBias apr vaddr).bind fun r =>
    match r with
    | some r => .ret (some r)
    | none =>
      if realmm then
        if dp ≠ 0 then .ret (some (dp ||| offsetOf vaddr, 0))
        else
          (walkQuery ktabBias ((if code then CODE_SEGTAB else DATA_SEGTAB) ||| 1) vaddr).bind
            fun r =>
              match r with
              | some r => .ret (some r)
              | none => .ret (if 0xE0000000 ≤ vaddr then some (vaddr, 0) else none)
      else .ret none

theorem Mem.walkFb_of_walk {m : Mem} {ktabBias apr vaddr : U32} {devmap : List DevMap} {code : Bool}
    {r : U32 × U32} (h : m.mmuWalk ktabBias apr vaddr = some r) :
    m.walkFb ktabBias devmap apr vaddr code = some r := by
  rw [Mem.walkFb, h]

theorem devmapLookup_ne_zero {devmap : List DevMap} {va : U32} :
    (devmap ≠ [] ∧ devmapLookup devmap va ≠ 0) ↔ devmapLookup devmap va ≠ 0 := by
  refine ⟨And.right, fun h => ⟨?_, h⟩⟩
  rintro rfl
  exact h rfl

theorem answer_walkFbQuery (m : Mem) (ktabBias : U32) (devmap : List DevMap) (apr vaddr : U32)
    (code : Bool) :
    (walkFbQuery ktabBias (devmapLookup devmap vaddr) m.realmm apr vaddr code).answer m.r32 =
      m.walkFb ktabBias devmap apr vaddr code := by
  simp only [walkFbQuery, Mem.walkFb, Query.answer_bind, answer_walkQuery, devmapLookup_ne_zero]
  cases m.mmuWalk ktabBias apr vaddr with
  | some r => rfl
  | none =>
    simp only [Query.answer_ite, Query.answer_bind, answer_walkQuery, Query.answer_ret]
    cases m.mmuWalk ktabBias ((if code then CODE_SEGTAB else DATA_SEGTAB) ||| 1) vaddr <;> rfl

/-! ## Walks by page -/

theorem shift_of_page {a b : U32} (h : pageAddr a = pageAddr b) :
    a >>> 12 = b >>> 12 ∧ a >>> 22 = b >>> 22 ∧
      (a < 0xC0000000 ↔ b < 0xC0000000) ∧ (0xE0000000 ≤ a ↔ 0xE0000000 ≤ b) := by
  rw [← BitVec.toNat_inj, toNat_pageAddr, toNat_pageAddr] at h
  have h22 : ∀ c : U32, (c >>> 22).toNat = c.toNat / 2 ^ 22 := by
    intro c
    simp [Nat.shiftRight_eq_div_pow]
  simp only [← BitVec.toNat_inj, toNat_shift12, h22, BitVec.lt_def, BitVec.le_def]
  simp
  omega

def rebase (va : U32) (r : U32 × U32) : U32 × U32 := (pageAddr r.1 ||| offsetOf va, r.2)

theorem mmuWalk_rebase (m : Mem) (ktabBias apr : U32) {va vb : U32}
    (h : pageAddr va = pageAddr vb) :
    m.mmuWalk ktabBias apr va = (m.mmuWalk ktabBias apr vb).map (rebase va) := by
  obtain ⟨h12, h22, hlow, -⟩ := shift_of_page h
  simp only [Mem.mmuWalk, h12, h22, hlow]
  split
  · rfl
  split
  · rfl
  split
  · rfl
  · rw [Option.map_some, rebase, pageAddr_pageAddr_or]

theorem devmapLookup_rebase (devmap : List DevMap) {va vb : U32}
    (h : pageAddr va = pageAddr vb) : devmapLookup devmap va = devmapLookup devmap vb := by
  rw [devmapLookup, devmapLookup, h]

theorem pageAddr_devmapLookup (devmap : List DevMap) (va : U32) :
    pageAddr (devmapLookup devmap va) = devmapLookup devmap va := by
  unfold devmapLookup
  split
  · rename_i d _
    exact d.aligned
  · rfl

theorem rebase_page {p va vb : U32} (hp : pageAddr p = p) :
    rebase va (p ||| offsetOf vb, 0) = (p ||| offsetOf va, 0) := by
  have hpage : pageAddr (p ||| offsetOf vb) = p := by
    conv_lhs => rw [← hp]
    rw [pageAddr_pageAddr_or, hp]
  rw [rebase, hpage]

theorem walkFb_rebase (m : Mem) (ktabBias : U32) (devmap : List DevMap) (apr : U32)
    (code : Bool) {va vb : U32} (h : pageAddr va = pageAddr vb) :
    m.walkFb ktabBias devmap apr va code =
      (m.walkFb ktabBias devmap apr vb code).map (rebase va) := by
  obtain ⟨-, -, -, hhigh⟩ := shift_of_page h
  have hself : (va, (0 : U32)) = rebase va (vb, 0) := by
    rw [rebase, ← h, pageAddr_or_offsetOf]
  simp only [Mem.walkFb, mmuWalk_rebase m ktabBias _ h, devmapLookup_rebase devmap h, hhigh]
  cases m.mmuWalk ktabBias apr vb with
  | some r => rfl
  | none =>
    simp only [Option.map_none]
    by_cases hreal : m.realmm = true
    · rw [if_pos hreal, if_pos hreal]
      by_cases hdp : devmap ≠ [] ∧ devmapLookup devmap vb ≠ 0
      · rw [if_pos hdp, if_pos hdp, Option.map_some, rebase_page (pageAddr_devmapLookup devmap vb)]
      · rw [if_neg hdp, if_neg hdp]
        cases m.mmuWalk ktabBias ((if code then CODE_SEGTAB else DATA_SEGTAB) ||| 1) vb with
        | some r => rfl
        | none =>
          simp only [Option.map_none]
          split
          · rw [Option.map_some, hself]
          · rfl
    · rw [if_neg hreal, if_neg hreal, Option.map_none]

/-! ## What a cached translation stands for -/

namespace Machine

/-- The table lookup behind an access that may be cached. -/
def walked (m : Machine) (va : U32) (code : Bool) : Option (U32 × U32) :=
  if 0xC0000000 ≤ va then m.walkEnabled (m.apr code CMMU_SAPR) va
  else m.mem.walkFb m.ktabBias m.devmap (m.apr code m.aprOffset) va code

/-- The word kept for a page: its frame, with the write-protect bit in bit 0 of
a user page. -/
def cacheWord (va : U32) (r : U32 × U32) : U32 :=
  pageAddr r.1 ||| (if 0xC0000000 ≤ va ∨ r.2 &&& PTE_WP = 0 then 0 else 1)

def aprFor (m : Machine) (va : U32) (code : Bool) : U32 :=
  m.apr code (if 0xC0000000 ≤ va then CMMU_SAPR else m.aprOffset)

def walkedQuery (m : Machine) (va : U32) (code : Bool) : Query U32 U32 (Option (U32 × U32)) :=
  if 0xC0000000 ≤ va then
    if m.aprFor va code &&& 1 = 0 then .ret none
    else walkQuery m.ktabBias (m.aprFor va code) va
  else
    walkFbQuery m.ktabBias (devmapLookup m.devmap va) m.mem.realmm (m.aprFor va code) va code

/-- The descriptor words, valid or not, that the lookup of `va` reads. -/
def consulted (m : Machine) (va : U32) (code : Bool) : List U32 :=
  (m.walkedQuery va code).asked m.mem.r32

theorem answer_walkedQuery (m : Machine) (va : U32) (code : Bool) :
    (m.walkedQuery va code).answer m.mem.r32 = m.walked va code := by
  unfold walkedQuery walked aprFor walkEnabled
  split
  · simp only [Query.answer_ite, Query.answer_ret, answer_walkQuery]
  · simp only [answer_walkFbQuery]

/-- What a lookup depends on besides the descriptor words it consults. -/
structure SameTables (m m' : Machine) (va : U32) (code : Bool) : Prop where
  apr : m'.aprFor va code = m.aprFor va code
  realmm : m'.mem.realmm = m.mem.realmm
  bias : m'.ktabBias = m.ktabBias
  devmap : ¬0xC0000000 ≤ va → devmapLookup m'.devmap va = devmapLookup m.devmap va

/-- A lookup comes out as it did while its descriptors hold what they held. -/
theorem walked_congr {m m' : Machine} {va : U32} {code : Bool} (h : SameTables m m' va code)
    (hsame : ∀ a ∈ m.consulted va code, m'.mem.r32 a = m.mem.r32 a) :
    m'.walked va code = m.walked va code := by
  have hquery : m'.walkedQuery va code = m.walkedQuery va code := by
    unfold walkedQuery
    rw [h.apr, h.bias, h.realmm]
    split
    · rfl
    · rename_i hlow
      rw [h.devmap hlow]
  rw [← answer_walkedQuery, ← answer_walkedQuery, hquery]
  exact Query.answer_congr hsame

theorem walked_rebase (m : Machine) (code : Bool) {va vb : U32}
    (h : pageAddr va = pageAddr vb) :
    m.walked va code = (m.walked vb code).map (rebase va) := by
  obtain ⟨-, -, hlow, -⟩ := shift_of_page h
  have hkernel : 0xC0000000 ≤ va ↔ 0xC0000000 ≤ vb := by
    rw [← BitVec.not_lt, ← BitVec.not_lt, hlow]
  unfold walked walkEnabled
  simp only [hkernel]
  split
  · split
    · rfl
    · exact mmuWalk_rebase _ _ _ h
  · exact walkFb_rebase _ _ _ _ _ h

theorem walked_offset {m : Machine} {va : U32} {code : Bool} {r : U32 × U32}
    (h : m.walked va code = some r) : pageAddr r.1 ||| offsetOf va = r.1 := by
  have hself := walked_rebase m code (rfl : pageAddr va = pageAddr va)
  rw [h, Option.map_some] at hself
  exact (congrArg Prod.fst (Option.some.inj hself)).symm

theorem cacheWord_rebase {va vb : U32} (h : pageAddr va = pageAddr vb) (r : U32 × U32) :
    cacheWord va (rebase va r) = cacheWord vb r := by
  obtain ⟨-, -, hlow, -⟩ := shift_of_page h
  have hkernel : 0xC0000000 ≤ va ↔ 0xC0000000 ≤ vb := by
    rw [← BitVec.not_lt, ← BitVec.not_lt, hlow]
  simp only [cacheWord, rebase, pageAddr_pageAddr_or, hkernel]

theorem walked_cacheWord (m : Machine) (code : Bool) {va vb : U32}
    (h : pageAddr va = pageAddr vb) :
    (m.walked va code).map (cacheWord va) = (m.walked vb code).map (cacheWord vb) := by
  rw [walked_rebase m code h, Option.map_map]
  congr 1
  exact funext (cacheWord_rebase h)

end Machine

end Nx88
