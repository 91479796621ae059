import Mathlib.Data.Set.Card
import Nx88.Mmu.Tables
import Nx88.Reset
/-!
# What the synthetic tables map

Calls of `map_range_off` on any number of segment tables, from zeroed tables and
an unused pool: every table maps the pages that were asked of it, to where the
latest call put them, and no page table is shared.
-/

namespace Nx88

open Lib.Words Lib

theorem mmuWalk_none (m : Mem) (va : U32) : m.mmuWalk 0 (0 ||| 1) va = none := by
  rw [Mem.mmuWalk]
  exact if_pos rfl

/-! ## One page -/

namespace PtPool

variable {s : PtPool} {segtab off va : U32}

def descriptor (s : PtPool) (t va : U32) : Option U32 :=
  TwoLevel.lookup (descriptors s.mem.realmm) s.mem.cells (frame s.mem.realmm t) (segIndex va)
    (pageIndex va)

def linked (s : PtPool) (t : U32) (i : Fin 1024) : Option U32 :=
  (descriptors s.mem.realmm).link (s.mem.cells (frame s.mem.realmm t) i)

theorem mmuWalk_eq (s : PtPool) {t : U32} (ht : pageAddr t = t) (hne : t ≠ 0) (va : U32) :
    s.mem.mmuWalk 0 (t ||| 1) va =
      (s.descriptor t va).map fun d => (pageAddr d ||| offsetOf va, d) := by
  have hpage : pageAddr (t ||| 1) = t := by
    rw [← ht, pageAddr_pageAddr_or_one]
  have hread : ∀ pa, s.mem.tabR32 0 pa (decide ((0 : U32) ≠ 0 ∧ va < 0xC0000000)) = s.mem.r32 pa := by
    intro pa
    rw [Mem.tabR32]
    dsimp only
    rw [if_neg]
    rintro ⟨-, hbiased⟩
    exact (of_decide_eq_true hbiased).1 rfl
  rw [Mem.mmuWalk, hpage]
  dsimp only
  rw [if_neg hne, hread, hread, cellAddr_seg, r32_cell _ ht, cellAddr_page,
    r32_cell _ (pageAddr_pageAddr _), descriptor, TwoLevel.lookup]
  change _ = Option.map _ ((if _ then none else some _ : Option U32).bind fun leaf =>
    if s.mem.cells leaf (pageIndex va) &&& 1 = 0 then none
    else some (s.mem.cells leaf (pageIndex va)))
  split_ifs with hseg hdesc
  · rfl
  · rw [Option.bind_some, if_pos hdesc]
    rfl
  · rw [Option.bind_some, if_neg hdesc]
    rfl

theorem link_descriptor (realmm : Bool) {p : U32} (hp : pageAddr p = p) :
    (descriptors realmm).link (p ||| 1) = some (frame realmm p) := by
  have hvalid : ¬(p ||| 1) &&& 1 = 0 := by
    rw [← hp, pageAddr_or_one_and_one]
    decide
  change (if (p ||| 1) &&& 1 = 0 then none else some (frame realmm (pageAddr (p ||| 1)))) = _
  rw [if_neg hvalid, ← hp, pageAddr_pageAddr_or_one]

theorem value_descriptor (realmm : Bool) (a : U32) :
    (descriptors realmm).value (pageAddr a ||| 1) = some (pageAddr a ||| 1) := by
  change (if (pageAddr a ||| 1) &&& 1 = 0 then none else some (pageAddr a ||| 1)) = _
  rw [pageAddr_or_one_and_one, if_neg (by decide)]

/-- What the mapping of one page does to the store: an insertion. -/
theorem mapPage_insert (s : PtPool) (off va : U32) (hseg : pageAddr segtab = segtab)
    (hpool : pageAddr s.ptpoolNext = s.ptpoolNext) :
    (s.mapPage segtab off va).mem.realmm = s.mem.realmm ∧
      (s.mapPage segtab off va).mem.cells =
        TwoLevel.insert (descriptors s.mem.realmm) s.mem.cells (frame s.mem.realmm segtab)
          (segIndex va) (pageIndex va) (frame s.mem.realmm s.ptpoolNext) (s.ptpoolNext ||| 1)
          (pageAddr (va - off) ||| 1) ∧
      (s.mapPage segtab off va).ptpoolNext =
        if (s.linked segtab (segIndex va)).isSome then s.ptpoolNext
        else s.ptpoolNext + PAGE_SIZE := by
  rw [mapPage, pageTable]
  dsimp only
  rw [cellAddr_seg, r32_cell _ hseg, linked]
  by_cases hvalid : s.mem.cells (frame s.mem.realmm segtab) (segIndex va) &&& 1 = 0
  · have hnone : (descriptors s.mem.realmm).link
        (s.mem.cells (frame s.mem.realmm segtab) (segIndex va)) = none := if_pos hvalid
    have hzero : (s.mem.zero s.ptpoolNext PAGE_SIZE.toNat).realmm = s.mem.realmm :=
      Mem.load_realmm _ _ _
    rw [if_neg (not_not.2 hvalid), TwoLevel.insert_fresh hnone, hnone]
    dsimp only
    rw [cellAddr_page, w32_cell _ hpool, Mem.w32_realmm, Mem.w32_realmm, w32_cell _ hseg, hzero,
      zero_cells _ hpool]
    exact ⟨rfl, rfl, rfl⟩
  · have hsome : (descriptors s.mem.realmm).link
        (s.mem.cells (frame s.mem.realmm segtab) (segIndex va)) = some (frame s.mem.realmm
          (pageAddr (s.mem.cells (frame s.mem.realmm segtab) (segIndex va)))) := if_neg hvalid
    rw [if_pos hvalid, TwoLevel.insert_linked hsome, hsome]
    dsimp only
    rw [cellAddr_page, w32_cell _ (pageAddr_pageAddr _), Mem.w32_realmm]
    exact ⟨rfl, rfl, rfl⟩

end PtPool

/-! ## Many pages -/

/-- Page `k` of the pool. -/
def poolPage (pool : U32) (k : Nat) : U32 := pool + BitVec.ofNat 32 (4096 * k)

theorem poolPage_zero (pool : U32) : poolPage pool 0 = pool := BitVec.add_zero pool

theorem poolPage_succ (pool : U32) (k : Nat) :
    poolPage pool k + PAGE_SIZE = poolPage pool (k + 1) := by
  have hsize : PAGE_SIZE = BitVec.ofNat 32 4096 := rfl
  rw [poolPage, poolPage, BitVec.add_assoc, hsize, ← BitVec.ofNat_add, Nat.mul_add, Nat.mul_one]

theorem pageAddr_of_mod {a : U32} (h : a.toNat % 4096 = 0) : pageAddr a = a := by
  apply BitVec.eq_of_toNat_eq
  rw [toNat_pageAddr]
  omega

theorem poolPage_aligned {pool : U32} (h : pageAddr pool = pool) (k : Nat) :
    pageAddr (poolPage pool k) = poolPage pool k := by
  have hmod := toNat_aligned h
  apply pageAddr_of_mod
  rw [poolPage, BitVec.toNat_add, BitVec.toNat_ofNat]
  omega

/-- Tables on pages of their own, and a pool of `n` more pages. -/
structure Layout (realmm : Bool) (tabs : Set U32) (pool : U32) (n : Nat) : Prop where
  tableAligned : ∀ t ∈ tabs, pageAddr t = t
  poolAligned : pageAddr pool = pool
  distinct : ∀ i < n, ∀ j < n,
    frame realmm (poolPage pool i) = frame realmm (poolPage pool j) → i = j
  apart : ∀ t ∈ tabs, ∀ i < n, frame realmm (poolPage pool i) ≠ frame realmm t

def PtPool.segments (s : PtPool) (tabs : Set U32) : Set (U32 × Fin 1024) :=
  { x | x.1 ∈ frame s.mem.realmm '' tabs ∧
    (descriptors s.mem.realmm).link (s.mem.cells x.1 x.2) ≠ none }

/-- `k` pages of the pool are page tables of `k` segments, all of them in `need`. -/
structure Built (realmm : Bool) (tabs : Set U32) (pool : U32) (need : Set (U32 × Fin 1024))
    (s : PtPool) (k : Nat) : Prop where
  sameMap : s.mem.realmm = realmm
  next : s.ptpoolNext = poolPage pool k
  separate : TwoLevel.Separate (descriptors realmm) (frame realmm '' tabs)
    { f | ∃ i < k, f = frame realmm (poolPage pool i) } s.mem.cells
  count : (s.segments tabs).ncard = k
  needed : s.segments tabs ⊆ need

theorem segments_finite (x : Set (U32 × Fin 1024)) : x.Finite := by
  have hfinite : Finite U32 := Finite.of_injective BitVec.toFin fun a b h => BitVec.toFin_inj.1 h
  exact Set.toFinite x

section Built

variable {realmm : Bool} {tabs : Set U32} {pool : U32} {need : Set (U32 × Fin 1024)} {s : PtPool}
  {k : Nat} {segtab off va : U32}

variable (off va) in
theorem segments_mapPage (hs : s.mem.realmm = realmm) (hseg : segtab ∈ tabs)
    (haligned : pageAddr segtab = segtab) (hpool : pageAddr s.ptpoolNext = s.ptpoolNext)
    (hsep : TwoLevel.Separate (descriptors realmm) (frame realmm '' tabs)
      { f | ∃ i < k, f = frame realmm (poolPage pool i) } s.mem.cells)
    (hfresh : s.linked segtab (segIndex va) = none →
      frame realmm s.ptpoolNext ∉ frame realmm '' tabs) :
    (s.mapPage segtab off va).segments tabs =
      Insert.insert (frame realmm segtab, segIndex va) (s.segments tabs) := by
  obtain ⟨hrealmm, hcells, -⟩ := s.mapPage_insert off va haligned hpool
  have hroot : frame realmm segtab ∈ frame realmm '' tabs := Set.mem_image_of_mem _ hseg
  ext ⟨f, i⟩
  rw [PtPool.segments, PtPool.segments, hrealmm, hcells, hs, Set.mem_insert_iff, Set.mem_ofPred_eq,
    Set.mem_ofPred_eq]
  dsimp only
  cases hlink : (descriptors realmm).link (s.mem.cells (frame realmm segtab) (segIndex va)) with
  | some leaf =>
    constructor
    · rintro ⟨hf, hne⟩
      rw [TwoLevel.insert_linked_root hsep hroot hlink hf] at hne
      exact .inr ⟨hf, hne⟩
    · rintro (heq | ⟨hf, hne⟩)
      · obtain ⟨rfl, rfl⟩ := Prod.mk.inj heq
        refine ⟨hroot, ?_⟩
        rw [TwoLevel.insert_linked_root hsep hroot hlink hroot, hlink]
        exact Option.some_ne_none leaf
      · refine ⟨hf, ?_⟩
        rw [TwoLevel.insert_linked_root hsep hroot hlink hf]
        exact hne
  | none =>
    have hunlinked : s.linked segtab (segIndex va) = none := by
      rw [PtPool.linked, hs]
      exact hlink
    have hcell : ∀ g ∈ frame realmm '' tabs, ∀ j, (descriptors realmm).link
        (TwoLevel.insert (descriptors realmm) s.mem.cells (frame realmm segtab) (segIndex va)
          (pageIndex va) (frame realmm s.ptpoolNext) (s.ptpoolNext ||| 1)
          (pageAddr (va - off) ||| 1) g j) ≠ none ↔
        (g, j) = (frame realmm segtab, segIndex va) ∨
          (descriptors realmm).link (s.mem.cells g j) ≠ none := by
      intro g hg j
      rw [TwoLevel.insert_fresh_root hlink (hfresh hunlinked) hg, Prod.mk.injEq]
      by_cases hhere : g = frame realmm segtab ∧ j = segIndex va
      · rw [if_pos hhere, PtPool.link_descriptor realmm hpool]
        exact iff_of_true (Option.some_ne_none _) (.inl hhere)
      · rw [if_neg hhere, or_iff_right hhere]
    constructor
    · rintro ⟨hf, hne⟩
      exact ((hcell f hf i).1 hne).imp_right fun hne => ⟨hf, hne⟩
    · rintro (heq | ⟨hf, hne⟩)
      · obtain ⟨rfl, rfl⟩ := Prod.mk.inj heq
        exact ⟨hroot, (hcell _ hroot _).2 (.inl rfl)⟩
      · exact ⟨hf, (hcell f hf i).2 (.inr hne)⟩

/-- While not every needed segment has its page table, the next page is fresh. -/
theorem Built.fresh (h : Built realmm tabs pool need s k) (hl : Layout realmm tabs pool need.ncard)
    (hlt : k < need.ncard) :
    frame realmm s.ptpoolNext ∉ frame realmm '' tabs ∧
      frame realmm s.ptpoolNext ∉ { f | ∃ i < k, f = frame realmm (poolPage pool i) } := by
  rw [h.next]
  constructor
  · rintro ⟨t, ht, heq⟩
    exact hl.apart t ht k hlt heq.symm
  · rintro ⟨i, hi, heq⟩
    exact absurd (hl.distinct k hlt i (hi.trans hlt) heq) (Nat.ne_of_gt hi)

theorem Built.lt (h : Built realmm tabs pool need s k)
    (hneed : (frame realmm segtab, segIndex va) ∈ need)
    (hnone : s.linked segtab (segIndex va) = none) : k < need.ncard := by
  rw [← h.count]
  refine Set.ncard_lt_ncard ⟨h.needed, fun hsub => ?_⟩ (segments_finite need)
  have hlinked := (hsub hneed).2
  rw [h.sameMap] at hlinked
  rw [PtPool.linked, h.sameMap] at hnone
  exact hlinked hnone

variable (off) in
theorem Built.mapPage (h : Built realmm tabs pool need s k)
    (hl : Layout realmm tabs pool need.ncard) (hseg : segtab ∈ tabs)
    (hneed : (frame realmm segtab, segIndex va) ∈ need) :
    (∃ k', Built realmm tabs pool need (s.mapPage segtab off va) k') ∧
      ∀ t ∈ tabs, ∀ vb, (s.mapPage segtab off va).descriptor t vb =
        if frame realmm t = frame realmm segtab ∧ pageAddr vb = pageAddr va
        then some (pageAddr (va - off) ||| 1) else s.descriptor t vb := by
  have haligned := hl.tableAligned segtab hseg
  have hpool : pageAddr s.ptpoolNext = s.ptpoolNext := by
    rw [h.next]
    exact poolPage_aligned hl.poolAligned k
  have hroot : frame realmm segtab ∈ frame realmm '' tabs := Set.mem_image_of_mem _ hseg
  obtain ⟨hrealmm, hcells, hnext⟩ := s.mapPage_insert off va haligned hpool
  have hsegments := segments_mapPage off va h.sameMap hseg haligned hpool h.separate
    fun hnone => (h.fresh hl (h.lt hneed hnone)).1
  have hneeded : (s.mapPage segtab off va).segments tabs ⊆ need := by
    rw [hsegments]
    exact Set.insert_subset hneed h.needed
  have hlinked := PtPool.link_descriptor realmm hpool
  have hfree : (descriptors realmm).link (s.mem.cells (frame realmm segtab) (segIndex va)) = none →
      frame realmm s.ptpoolNext ∉ frame realmm '' tabs ∧
        frame realmm s.ptpoolNext ∉ { f | ∃ i < k, f = frame realmm (poolPage pool i) } := by
    intro hnone
    refine h.fresh hl (h.lt hneed ?_)
    rw [PtPool.linked, h.sameMap]
    exact hnone
  rw [h.sameMap] at hrealmm hcells
  constructor
  · cases hlink : (descriptors realmm).link
        (s.mem.cells (frame realmm segtab) (segIndex va)) with
    | some leaf =>
      have hlinkedAt : s.linked segtab (segIndex va) = some leaf := by
        rw [PtPool.linked, h.sameMap]
        exact hlink
      refine ⟨k, hrealmm, ?_, ?_, ?_, hneeded⟩
      · rw [hnext, hlinkedAt]
        exact h.next
      · rw [hcells]
        exact h.separate.of_linked hroot hlink
      · have hmem : (frame realmm segtab, segIndex va) ∈ s.segments tabs := by
          refine ⟨by rw [h.sameMap]; exact hroot, ?_⟩
          rw [h.sameMap, hlink]
          exact Option.some_ne_none leaf
        rw [hsegments, Set.insert_eq_of_mem hmem]
        exact h.count
    | none =>
      obtain ⟨hroots, hused⟩ := hfree hlink
      have hnone : s.linked segtab (segIndex va) = none := by
        rw [PtPool.linked, h.sameMap]
        exact hlink
      refine ⟨k + 1, hrealmm, ?_, ?_, ?_, hneeded⟩
      · rw [hnext, hnone, h.next]
        exact poolPage_succ pool k
      · have hpages : { f | ∃ i < k + 1, f = frame realmm (poolPage pool i) } =
            Insert.insert (frame realmm s.ptpoolNext)
              { f | ∃ i < k, f = frame realmm (poolPage pool i) } := by
          ext f
          rw [h.next]
          constructor
          · rintro ⟨i, hi, rfl⟩
            rcases Nat.lt_succ_iff_lt_or_eq.1 hi with hi | rfl
            · exact .inr ⟨i, hi, rfl⟩
            · exact .inl rfl
          · rintro (rfl | ⟨i, hi, rfl⟩)
            · exact ⟨k, Nat.lt_succ_self k, rfl⟩
            · exact ⟨i, Nat.lt_succ_of_lt hi, rfl⟩
        rw [hcells, hpages]
        exact h.separate.of_fresh hlink hlinked hroots hused
      · have hnew : (frame realmm segtab, segIndex va) ∉ s.segments tabs := by
          rintro ⟨-, hne⟩
          rw [h.sameMap] at hne
          exact hne hlink
        rw [hsegments, Set.ncard_insert_of_notMem hnew (segments_finite _), h.count]
  · intro t ht vb
    rw [PtPool.descriptor, PtPool.descriptor, hrealmm, h.sameMap, hcells,
      TwoLevel.lookup_insert h.separate hroot hlinked hfree (Set.mem_image_of_mem _ ht),
      PtPool.value_descriptor]
    exact if_congr (and_congr_right fun _ => index_eq_iff vb va) rfl rfl

end Built

/-! ## Calls -/

/-- A call of `map_range_off`. -/
structure MapCall where
  segtab : U32
  lo : U32
  hi : U32
  off : U32

namespace MapCall

/-- The call maps the page of `va` on the table at `t`. -/
def Covers (realmm : Bool) (c : MapCall) (t va : U32) : Prop :=
  frame realmm c.segtab = frame realmm t ∧ c.lo ≤ va ∧ va < c.hi

instance (realmm : Bool) (c : MapCall) (t va : U32) : Decidable (c.Covers realmm t va) :=
  inferInstanceAs (Decidable (_ ∧ _))

/-- Whole pages, and the loop does not wrap around. -/
structure WellFormed (c : MapCall) : Prop where
  lo : pageAddr c.lo = c.lo
  hi : pageAddr c.hi = c.hi
  off : pageAddr c.off = c.off
  nonempty : c.lo < c.hi
  noWrap : c.hi ≤ 0xFFFFF000

def segments (realmm : Bool) (calls : List MapCall) : Set (U32 × Fin 1024) :=
  { x | ∃ c ∈ calls, ∃ va, c.lo ≤ va ∧ va < c.hi ∧ x = (frame realmm c.segtab, segIndex va) }

/-- Where the latest call that covers `va` maps from. -/
def latest (realmm : Bool) (calls : List MapCall) (t va : U32) : Option U32 :=
  (calls.reverse.find? fun c => c.Covers realmm t va).map MapCall.off

theorem latest_append (realmm : Bool) (calls : List MapCall) (c : MapCall) (t va : U32) :
    latest realmm (calls ++ [c]) t va =
      if c.Covers realmm t va then some c.off else latest realmm calls t va := by
  rw [latest, List.reverse_append, List.reverse_singleton, List.singleton_append]
  rw [List.find?_cons]
  by_cases hc : c.Covers realmm t va
  · rw [decide_eq_true hc, if_pos hc]
    rfl
  · rw [decide_eq_false hc, if_neg hc]
    rfl

end MapCall

def PtPool.mapAll (s : PtPool) (calls : List MapCall) : PtPool :=
  calls.foldl (fun s c => s.mapRangeOff c.segtab c.lo c.hi c.off) s

theorem toNat_nextPage {va hi : U32} (hlt : va < hi) (hhi : hi ≤ 0xFFFFF000) :
    (va + PAGE_SIZE).toNat = va.toNat + 4096 := by
  have hmax : (0xFFFFF000 : U32).toNat = 4294963200 := rfl
  have hsize : PAGE_SIZE.toNat = 4096 := rfl
  rw [BitVec.le_def] at hhi
  rw [BitVec.lt_def] at hlt
  rw [BitVec.toNat_add, hsize]
  omega

theorem sub_page (q : Nat) (x : Nat) (hlt : 4096 * q < 2 ^ 32) :
    (2 ^ 32 - 4096 * q + x) % 2 ^ 32 / 4096 = (2 ^ 20 - q + x / 4096) % 2 ^ 20 := by
  omega

theorem pageAddr_sub {off va vb : U32} (hoff : pageAddr off = off)
    (hpage : pageAddr vb = pageAddr va) : pageAddr (vb - off) = pageAddr (va - off) := by
  have hmod := toNat_aligned hoff
  have hlt := off.isLt
  obtain ⟨q, hq⟩ : ∃ q, off.toNat = 4096 * q := ⟨off.toNat / 4096, by omega⟩
  rw [hq] at hlt
  have hnat := congrArg BitVec.toNat hpage
  rw [toNat_pageAddr, toNat_pageAddr] at hnat
  have hsame : vb.toNat / 4096 = va.toNat / 4096 := by omega
  apply BitVec.eq_of_toNat_eq
  rw [toNat_pageAddr, toNat_pageAddr, BitVec.toNat_sub, BitVec.toNat_sub, hq, sub_page q _ hlt,
    sub_page q _ hlt, hsame]

theorem pageAddr_sub_or {off va : U32} (hoff : pageAddr off = off) :
    pageAddr (pageAddr (va - off) ||| 1) ||| offsetOf va = va - off := by
  have hmod := toNat_aligned hoff
  have hlt := off.isLt
  have hoffset : offsetOf va = offsetOf (va - off) := by
    apply BitVec.eq_of_toNat_eq
    rw [toNat_offsetOf, toNat_offsetOf, BitVec.toNat_sub]
    omega
  rw [pageAddr_pageAddr_or_one, hoffset, pageAddr_or_offsetOf]

section Calls

variable {realmm : Bool} {tabs : Set U32} {pool : U32} {need : Set (U32 × Fin 1024)} {s : PtPool}
  {k : Nat} {segtab hi off va : U32}

/-- The loop maps the pages from `va` to `hi`, and changes no other mapping. -/
theorem Built.mapLoop {n : Nat} (h : Built realmm tabs pool need s k)
    (hl : Layout realmm tabs pool need.ncard) (hseg : segtab ∈ tabs) (hoff : pageAddr off = off)
    (hva : pageAddr va = va) (hhi : pageAddr hi = hi) (hmax : hi ≤ 0xFFFFF000)
    (hn : hi.toNat ≤ va.toNat + 4096 * n)
    (hneed : ∀ vb, va ≤ vb → vb < hi → (frame realmm segtab, segIndex vb) ∈ need) :
    (∃ k', Built realmm tabs pool need (s.mapLoop segtab hi off va n) k') ∧
      ∀ t ∈ tabs, ∀ vb, (s.mapLoop segtab hi off va n).descriptor t vb =
        if frame realmm segtab = frame realmm t ∧ va ≤ vb ∧ vb < hi
        then some (pageAddr (vb - off) ||| 1) else s.descriptor t vb := by
  induction n generalizing s k va with
  | zero =>
    refine ⟨⟨k, h⟩, fun t _ vb => ?_⟩
    rw [if_neg]
    · rfl
    rintro ⟨-, hge, hlt⟩
    rw [BitVec.le_def] at hge
    rw [BitVec.lt_def] at hlt
    omega
  | succ n ih =>
    rw [PtPool.mapLoop]
    by_cases hlt : va < hi
    swap
    · rw [if_neg hlt]
      refine ⟨⟨k, h⟩, fun t _ vb => ?_⟩
      rw [if_neg]
      rintro ⟨-, hge, hvb⟩
      rw [BitVec.le_def] at hge
      rw [BitVec.lt_def] at hvb hlt
      omega
    rw [if_pos hlt]
    have hnext := toNat_nextPage hlt hmax
    have hmod := toNat_aligned hva
    have hmodhi := toNat_aligned hhi
    have hle : va ≤ va + PAGE_SIZE := by
      rw [BitVec.le_def]
      omega
    obtain ⟨⟨k₁, h₁⟩, hmap₁⟩ := h.mapPage off hl hseg (hneed va (BitVec.le_refl va) hlt)
    obtain ⟨hbuilt, hmap⟩ := ih h₁ (pageAddr_of_mod (by omega)) (by omega)
      fun vb hge hvb => hneed vb (BitVec.le_trans hle hge) hvb
    refine ⟨hbuilt, fun t ht vb => ?_⟩
    rw [hmap t ht vb, hmap₁ t ht vb]
    have hvb := vb.isLt
    have hpage : pageAddr vb = pageAddr va ↔ va.toNat ≤ vb.toNat ∧ vb.toNat < va.toNat + 4096 := by
      rw [← BitVec.toNat_inj, toNat_pageAddr, toNat_pageAddr]
      omega
    by_cases hfirst : frame realmm t = frame realmm segtab ∧ pageAddr vb = pageAddr va
    · obtain ⟨hsame, hhere⟩ := hfirst
      have hrest : ¬(frame realmm segtab = frame realmm t ∧ va + PAGE_SIZE ≤ vb ∧ vb < hi) := by
        rintro ⟨-, hge, -⟩
        rw [BitVec.le_def] at hge
        rw [hpage] at hhere
        omega
      have hall : frame realmm segtab = frame realmm t ∧ va ≤ vb ∧ vb < hi := by
        rw [hpage] at hhere
        rw [BitVec.lt_def] at hlt
        exact ⟨hsame.symm, BitVec.le_def.2 hhere.1, BitVec.lt_def.2 (by omega)⟩
      rw [if_neg hrest, if_pos ⟨hsame, hhere⟩, if_pos hall, pageAddr_sub hoff hhere]
    · rw [if_neg hfirst]
      refine if_congr (and_congr_right fun hsame => and_congr_left fun _ => ?_) rfl rfl
      have hhere : ¬pageAddr vb = pageAddr va := fun hhere => hfirst ⟨hsame.symm, hhere⟩
      rw [hpage] at hhere
      rw [BitVec.le_def, BitVec.le_def]
      omega

theorem Built.mapRangeOff {c : MapCall} (h : Built realmm tabs pool need s k)
    (hl : Layout realmm tabs pool need.ncard) (hseg : c.segtab ∈ tabs) (hc : c.WellFormed)
    (hneed : ∀ vb, c.lo ≤ vb → vb < c.hi → (frame realmm c.segtab, segIndex vb) ∈ need) :
    (∃ k', Built realmm tabs pool need (s.mapRangeOff c.segtab c.lo c.hi c.off) k') ∧
      ∀ t ∈ tabs, ∀ vb, (s.mapRangeOff c.segtab c.lo c.hi c.off).descriptor t vb =
        if c.Covers realmm t vb then some (pageAddr (vb - c.off) ||| 1)
        else s.descriptor t vb := by
  have hhi := c.hi.isLt
  exact h.mapLoop hl hseg hc.off hc.lo hc.hi hc.noWrap (by omega) hneed

theorem Built.mapAll {calls : List MapCall} (h : Built realmm tabs pool need s k)
    (hl : Layout realmm tabs pool need.ncard)
    (hcalls : ∀ c ∈ calls, c.segtab ∈ tabs ∧ c.WellFormed)
    (hneed : MapCall.segments realmm calls ⊆ need) :
    (∃ k', Built realmm tabs pool need (s.mapAll calls) k') ∧
      ∀ t ∈ tabs, ∀ vb, (s.mapAll calls).descriptor t vb =
        match MapCall.latest realmm calls t vb with
        | some off => some (pageAddr (vb - off) ||| 1)
        | none => s.descriptor t vb := by
  induction calls using List.reverseRecOn with
  | nil => exact ⟨⟨k, h⟩, fun _ _ _ => rfl⟩
  | append_singleton calls c ih =>
    obtain ⟨hseg, hc⟩ := hcalls c (List.mem_append_right calls (List.mem_singleton_self c))
    have hneedc : ∀ vb, c.lo ≤ vb → vb < c.hi → (frame realmm c.segtab, segIndex vb) ∈ need :=
      fun vb hge hlt => hneed
        ⟨c, List.mem_append_right calls (List.mem_singleton_self c), vb, hge, hlt, rfl⟩
    have hneedl : MapCall.segments realmm calls ⊆ need := by
      rintro x ⟨c', hc', hx⟩
      exact hneed ⟨c', List.mem_append_left [c] hc', hx⟩
    obtain ⟨⟨k', h'⟩, hmap'⟩ := ih (fun c' hc' => hcalls c' (List.mem_append_left [c] hc')) hneedl
    obtain ⟨hbuilt, hmap⟩ := h'.mapRangeOff hl hseg hc hneedc
    have hlast : s.mapAll (calls ++ [c]) =
        (s.mapAll calls).mapRangeOff c.segtab c.lo c.hi c.off := List.foldl_append
    rw [hlast]
    refine ⟨hbuilt, fun t ht vb => ?_⟩
    rw [hmap t ht vb, hmap' t ht vb, MapCall.latest_append]
    split_ifs
    · rfl
    · rfl

end Calls

/-! ## All calls -/

/-- Zeroed segment tables on pages of their own, an unused pool that overlaps none
of them, and calls for whole pages of these tables. -/
structure MapSetup (s : PtPool) (tabs : Set U32) (calls : List MapCall) : Prop where
  tableAligned : ∀ t ∈ tabs, pageAddr t = t
  zeroed : ∀ t ∈ tabs, ∀ i, s.mem.r32 (cellAddr t i) = 0
  poolAligned : pageAddr s.ptpoolNext = s.ptpoolNext
  apart : ∀ t ∈ tabs, ∀ i < (MapCall.segments s.mem.realmm calls).ncard,
    frame s.mem.realmm (poolPage s.ptpoolNext i) ≠ frame s.mem.realmm t
  calls : ∀ c ∈ calls, c.segtab ∈ tabs ∧ c.WellFormed

/-- The pages of the pool that the calls need do not fold onto each other. -/
def DistinctPool (s : PtPool) (calls : List MapCall) : Prop :=
  ∀ i < (MapCall.segments s.mem.realmm calls).ncard,
    ∀ j < (MapCall.segments s.mem.realmm calls).ncard,
      frame s.mem.realmm (poolPage s.ptpoolNext i) = frame s.mem.realmm (poolPage s.ptpoolNext j) →
        i = j

section All

variable {s : PtPool} {tabs : Set U32} {calls : List MapCall}

theorem MapSetup.layout (h : MapSetup s tabs calls) (hd : DistinctPool s calls) :
    Layout s.mem.realmm tabs s.ptpoolNext (MapCall.segments s.mem.realmm calls).ncard :=
  ⟨h.tableAligned, h.poolAligned, hd, h.apart⟩

theorem MapSetup.blank (h : MapSetup s tabs calls) {t : U32} (ht : t ∈ tabs) (i : Fin 1024) :
    s.mem.cells (frame s.mem.realmm t) i = 0 := by
  rw [← r32_cell s.mem (h.tableAligned t ht) i]
  exact h.zeroed t ht i

theorem MapSetup.built (h : MapSetup s tabs calls) : Built s.mem.realmm tabs s.ptpoolNext
    (MapCall.segments s.mem.realmm calls) s 0 := by
  have hblank : ∀ r ∈ frame s.mem.realmm '' tabs, ∀ i,
      (descriptors s.mem.realmm).link (s.mem.cells r i) = none := by
    rintro r ⟨t, ht, rfl⟩ i
    rw [h.blank ht]
    rfl
  have hnone : s.segments tabs = ∅ := by
    refine Set.eq_empty_of_forall_notMem fun x hx => hx.2 (hblank x.1 hx.1 x.2)
  refine ⟨rfl, (poolPage_zero _).symm, ⟨?_, ?_, ?_⟩, ?_, ?_⟩
  · rintro r - ⟨i, hi, -⟩
    exact absurd hi (Nat.not_lt_zero i)
  · intro r hr i p hp
    exact nomatch (hblank r hr i).symm.trans hp
  · intro r hr r' hr' i i' p hp hp'
    exact nomatch (hblank r hr i).symm.trans hp
  · rw [hnone, Set.ncard_empty]
  · rw [hnone]
    exact Set.empty_subset _

theorem MapSetup.descriptor (h : MapSetup s tabs calls) {t : U32} (ht : t ∈ tabs) (va : U32) :
    s.descriptor t va = none := by
  rw [PtPool.descriptor, TwoLevel.lookup, h.blank ht]
  rfl

theorem MapSetup.mapAll (h : MapSetup s tabs calls) (hd : DistinctPool s calls)
    {done : List MapCall} (hdone : done <+: calls) :
    (∃ k, Built s.mem.realmm tabs s.ptpoolNext (MapCall.segments s.mem.realmm calls)
      (s.mapAll done) k) ∧
      ∀ t ∈ tabs, ∀ va, (s.mapAll done).descriptor t va =
        (MapCall.latest s.mem.realmm done t va).map fun off => pageAddr (va - off) ||| 1 := by
  obtain ⟨hbuilt, hmap⟩ := h.built.mapAll (h.layout hd)
    (fun c hc => h.calls c (hdone.subset hc))
    (by
      rintro x ⟨c, hc, hx⟩
      exact ⟨c, hdone.subset hc, hx⟩)
  refine ⟨hbuilt, fun t ht va => ?_⟩
  rw [hmap t ht va, h.descriptor ht va]
  cases MapCall.latest s.mem.realmm done t va with
  | none => rfl
  | some off => rfl

theorem MapSetup.latest_aligned (h : MapSetup s tabs calls) {t va off : U32}
    (hoff : MapCall.latest s.mem.realmm calls t va = some off) : pageAddr off = off := by
  obtain ⟨c, hc, rfl⟩ := Option.map_eq_some_iff.1 hoff
  exact (h.calls c (List.mem_reverse.1 (List.mem_of_find?_eq_some hc))).2.off

/-- The tables map what was asked, and nothing else: to where the latest call put
it, through page tables of their own, and a call changes nothing outside its range. -/
theorem mapAll_maps_calls (h : MapSetup s tabs calls) (hd : DistinctPool s calls) :
    (∀ t ∈ tabs, t ≠ 0 → ∀ va, (s.mapAll calls).mem.mmuWalk 0 (t ||| 1) va =
      (MapCall.latest s.mem.realmm calls t va).map fun off =>
        (va - off, pageAddr (va - off) ||| 1)) ∧
      (∀ t ∈ tabs, ∀ t' ∈ tabs, ∀ i i' p, (s.mapAll calls).linked t i = some p →
        (s.mapAll calls).linked t' i' = some p →
          frame s.mem.realmm t = frame s.mem.realmm t' ∧ i = i') ∧
      ∀ done c, done ++ [c] <+: calls → ∀ t ∈ tabs, ∀ va, ¬c.Covers s.mem.realmm t va →
        (s.mapAll (done ++ [c])).mem.mmuWalk 0 (t ||| 1) va =
          (s.mapAll done).mem.mmuWalk 0 (t ||| 1) va := by
  obtain ⟨⟨k, hbuilt⟩, hmap⟩ := h.mapAll hd (List.prefix_refl calls)
  refine ⟨fun t ht hne va => ?_, fun t ht t' ht' i i' p hp hp' => ?_,
    fun done c hdone t ht va hout => ?_⟩
  · rw [PtPool.mmuWalk_eq _ (h.tableAligned t ht) hne, hmap t ht va, Option.map_map]
    refine Option.map_congr fun off hoff => ?_
    rw [Function.comp_apply, pageAddr_sub_or (h.latest_aligned hoff)]
  · rw [PtPool.linked, hbuilt.sameMap] at hp hp'
    exact hbuilt.separate.inj _ (Set.mem_image_of_mem _ ht) _ (Set.mem_image_of_mem _ ht') i i' p
      hp hp'
  · obtain ⟨-, hafter⟩ := h.mapAll hd hdone
    obtain ⟨-, hbefore⟩ := h.mapAll hd ((List.prefix_append done [c]).trans hdone)
    by_cases hne : t = 0
    · rw [hne, mmuWalk_none, mmuWalk_none]
    · rw [PtPool.mmuWalk_eq _ (h.tableAligned t ht) hne, PtPool.mmuWalk_eq _ (h.tableAligned t ht) hne,
        hafter t ht va, hbefore t ht va, MapCall.latest_append, if_neg hout]

end All

/-! ## Tables at 0, and pools that fold -/

theorem mapRangeOff_page (s : PtPool) {segtab lo hi off : U32} (hlt : lo < hi)
    (hend : ¬lo + PAGE_SIZE < hi) : s.mapRangeOff segtab lo hi off = s.mapPage segtab off lo := by
  have hfuel : (0x100000 : Nat) = 0xFFFFE + 1 + 1 := rfl
  rw [PtPool.mapRangeOff, hfuel, PtPool.mapLoop, if_pos hlt, PtPool.mapLoop, if_neg hend]

def onePage (segtab : U32) (x : Nat × Nat) : MapCall :=
  ⟨segtab, BitVec.ofNat 32 (0xC0000000 + 0x400000 * x.1 + 0x1000 * x.2),
    BitVec.ofNat 32 (0xC0000000 + 0x400000 * x.1 + 0x1000 * (x.2 + 1)), 0⟩

theorem segments_le {realmm : Bool} {calls : List MapCall} (need : List (U32 × Fin 1024))
    (h : ∀ c ∈ calls, ∀ va, c.lo ≤ va → va < c.hi → (frame realmm c.segtab, segIndex va) ∈ need) :
    (MapCall.segments realmm calls).ncard ≤ need.length := by
  have hsub : MapCall.segments realmm calls ⊆ (need.toFinset : Set _) := by
    rintro y ⟨c, hc, va, hge, hlt, rfl⟩
    rw [Finset.mem_coe, List.mem_toFinset]
    exact h c hc va hge hlt
  calc (MapCall.segments realmm calls).ncard
    _ ≤ (need.toFinset : Set _).ncard := Set.ncard_le_ncard hsub (Finset.finite_toSet _)
    _ = need.toFinset.card := Set.ncard_coe_finset _
    _ ≤ need.length := List.toFinset_card_le _

section OnePage

variable {t pool : U32} {xs : List (Nat × Nat)}

variable (xs) in
theorem segments_onePage (realmm : Bool) (t : U32) (hxs : ∀ x ∈ xs, x.1 < 4 ∧ x.2 < 4) :
    (MapCall.segments realmm (xs.map (onePage t))).ncard ≤ xs.length := by
  let seg : Nat × Nat → U32 × Fin 1024 := fun x => (frame realmm t, Fin.ofNat 1024 (768 + x.1))
  have hneed : (MapCall.segments realmm (xs.map (onePage t))).ncard ≤ (xs.map seg).length := by
    refine segments_le _ fun c hc va hge hlt => ?_
    obtain ⟨x, hx, rfl⟩ := List.mem_map.1 hc
    refine List.mem_map.2 ⟨x, hx, Prod.ext rfl (Fin.ext ?_)⟩
    obtain ⟨hk, hj⟩ := hxs x hx
    rw [onePage, BitVec.le_def, BitVec.toNat_ofNat] at hge
    rw [onePage, BitVec.lt_def, BitVec.toNat_ofNat] at hlt
    change (768 + x.1) % 1024 = va.toNat / 4194304 % 1024
    omega
  rwa [List.length_map] at hneed

theorem onePage_wellFormed (t : U32) {x : Nat × Nat} (hx : x.1 < 4 ∧ x.2 < 4) :
    (onePage t x).WellFormed := by
  obtain ⟨hk, hj⟩ := hx
  have hlo : (onePage t x).lo.toNat = 0xC0000000 + 0x400000 * x.1 + 0x1000 * x.2 := by
    rw [onePage, BitVec.toNat_ofNat]
    omega
  have hhi : (onePage t x).hi.toNat = 0xC0000000 + 0x400000 * x.1 + 0x1000 * (x.2 + 1) := by
    rw [onePage, BitVec.toNat_ofNat]
    omega
  have hoff : pageAddr (0 : U32) = 0 := by decide
  refine ⟨pageAddr_of_mod (by omega), pageAddr_of_mod (by omega), hoff, ?_, ?_⟩
  · rw [BitVec.lt_def]
    omega
  · have hmax : (0xFFFFF000 : U32).toNat = 4294963200 := rfl
    rw [BitVec.le_def]
    omega

theorem blank_cells (realmm : Bool) (f : U32) (i : Fin 1024) : (Mem.blank realmm).cells f i = 0 := by
  change be32 0 0 0 0 = 0
  decide

theorem mapRangeOff_onePage (s : PtPool) (t : U32) {x : Nat × Nat} (hx : x.1 < 4 ∧ x.2 < 4) :
    s.mapRangeOff (onePage t x).segtab (onePage t x).lo (onePage t x).hi (onePage t x).off =
      s.mapPage t 0 (onePage t x).lo := by
  have hwell := onePage_wellFormed t hx
  have hnext := toNat_nextPage hwell.nonempty hwell.noWrap
  refine mapRangeOff_page s hwell.nonempty ?_
  obtain ⟨hk, hj⟩ := hx
  rw [BitVec.lt_def, hnext]
  rw [onePage, BitVec.toNat_ofNat, BitVec.toNat_ofNat]
  omega

variable (xs) in
theorem setup_onePage (ht : pageAddr t = t) (hpool : pageAddr pool = pool)
    (hxs : ∀ x ∈ xs, x.1 < 4 ∧ x.2 < 4)
    (hapart : ∀ i < xs.length, frame false (poolPage pool i) ≠ frame false t) :
    MapSetup ⟨Mem.blank false, pool⟩ {t} (xs.map (onePage t)) := by
  refine ⟨?_, ?_, hpool, ?_, ?_⟩
  · rintro t' rfl
    exact ht
  · rintro t' rfl i
    rw [r32_cell _ ht]
    exact blank_cells false _ i
  · rintro t' rfl i hi
    exact hapart i (hi.trans_le (segments_onePage xs false t' hxs))
  · intro c hc
    obtain ⟨x, hx, rfl⟩ := List.mem_map.1 hc
    exact ⟨rfl, onePage_wellFormed t (hxs x hx)⟩

end OnePage

/-- Calls on two tables.  The last covers a page of the first again, and goes on into the
next segment. -/
def overriding : List MapCall :=
  [⟨CODE_SEGTAB, 0xC0000000, 0xC0002000, 0⟩, ⟨DATA_SEGTAB, 0xC0000000, 0xC0001000, 0⟩,
    ⟨CODE_SEGTAB, 0xC0001000, 0xC0401000, 0xC0000000⟩]

theorem segIndex_of_range {va : U32} (k : Nat) (hlo : 0xC0000000 + 0x400000 * k ≤ va.toNat)
    (hhi : va.toNat < 0xC0000000 + 0x400000 * (k + 1)) :
    segIndex va = Fin.ofNat 1024 (768 + k) := by
  apply Fin.ext
  change va.toNat / 4194304 % 1024 = (768 + k) % 1024
  omega

theorem segments_overriding : (MapCall.segments false overriding).ncard ≤ 3 := by
  refine segments_le [(frame false CODE_SEGTAB, 768), (frame false CODE_SEGTAB, 769),
    (frame false DATA_SEGTAB, 768)] fun c hc va hge hlt => ?_
  rw [BitVec.le_def] at hge
  rw [BitVec.lt_def] at hlt
  simp only [overriding, List.mem_cons, List.not_mem_nil, or_false] at hc
  rcases hc with rfl | rfl | rfl
  · change 0xC0000000 ≤ va.toNat at hge
    change va.toNat < 0xC0002000 at hlt
    rw [segIndex_of_range 0 (by omega) (by omega)]
    exact List.mem_cons_self ..
  · change 0xC0000000 ≤ va.toNat at hge
    change va.toNat < 0xC0001000 at hlt
    rw [segIndex_of_range 0 (by omega) (by omega)]
    exact List.mem_cons_of_mem _ (List.mem_cons_of_mem _ (List.mem_cons_self ..))
  · change 0xC0001000 ≤ va.toNat at hge
    change va.toNat < 0xC0401000 at hlt
    by_cases hfirst : va.toNat < 0xC0400000
    · rw [segIndex_of_range 0 (by omega) (by omega)]
      exact List.mem_cons_self ..
    · rw [segIndex_of_range 1 (by omega) (by omega)]
      exact List.mem_cons_of_mem _ (List.mem_cons_self ..)

theorem setup_overriding :
    MapSetup ⟨Mem.blank false, PTPOOL⟩ {CODE_SEGTAB, DATA_SEGTAB} overriding := by
  have haligned : ∀ t ∈ ({CODE_SEGTAB, DATA_SEGTAB} : Set U32), pageAddr t = t := by
    rintro t (rfl | rfl)
    · decide
    · decide
  have hapart : ∀ i < 3, frame false (poolPage PTPOOL i) ≠ frame false CODE_SEGTAB ∧
      frame false (poolPage PTPOOL i) ≠ frame false DATA_SEGTAB := by decide
  refine ⟨haligned, fun t ht i => ?_, by decide, ?_, ?_⟩
  · rw [r32_cell _ (haligned t ht)]
    exact blank_cells false _ i
  · rintro t (rfl | rfl) i hi
    · exact (hapart i (hi.trans_le segments_overriding)).1
    · exact (hapart i (hi.trans_le segments_overriding)).2
  · intro c hc
    simp only [overriding, List.mem_cons, List.not_mem_nil, or_false] at hc
    rcases hc with rfl | rfl | rfl
    · exact ⟨.inl rfl, by decide, by decide, by decide, by decide, by decide⟩
    · exact ⟨.inr rfl, by decide, by decide, by decide, by decide, by decide⟩
    · exact ⟨.inl rfl, by decide, by decide, by decide, by decide, by decide⟩

/-- The first call's page, the page that both cover, the next segment, and a page that
only the other table has not. -/
theorem mapAll_maps_overriding :
    (PtPool.mapAll ⟨Mem.blank false, PTPOOL⟩ overriding).mem.mmuWalk 0 (CODE_SEGTAB ||| 1)
        0xC0000ABC = some (0xC0000ABC, 0xC0000001) ∧
      (PtPool.mapAll ⟨Mem.blank false, PTPOOL⟩ overriding).mem.mmuWalk 0 (CODE_SEGTAB ||| 1)
        0xC0001ABC = some (0x1ABC, 0x1001) ∧
      (PtPool.mapAll ⟨Mem.blank false, PTPOOL⟩ overriding).mem.mmuWalk 0 (CODE_SEGTAB ||| 1)
        0xC0400ABC = some (0x400ABC, 0x400001) ∧
      (PtPool.mapAll ⟨Mem.blank false, PTPOOL⟩ overriding).mem.mmuWalk 0 (DATA_SEGTAB ||| 1)
        0xC0001ABC = none := by
  have hdistinct : DistinctPool ⟨Mem.blank false, PTPOOL⟩ overriding := by
    have hframes : ∀ i < 3, ∀ j < 3,
        frame false (poolPage PTPOOL i) = frame false (poolPage PTPOOL j) → i = j := by decide
    exact fun i hi j hj => hframes i (hi.trans_le segments_overriding) j
      (hj.trans_le segments_overriding)
  obtain ⟨hwalk, -⟩ := mapAll_maps_calls setup_overriding hdistinct
  have hcode := hwalk CODE_SEGTAB (.inl rfl) (by decide)
  have hdata := hwalk DATA_SEGTAB (.inr rfl) (by decide)
  exact ⟨(hcode _).trans (by decide), (hcode _).trans (by decide), (hcode _).trans (by decide),
    (hdata _).trans (by decide)⟩

theorem fresh_segment {s : PtPool} {pool next : U32} {cells : U32 → Fin 1024 → U32}
    (segtab va : U32)
    (hmap : s.mem.realmm = false) (hcells : s.mem.cells = cells) (hpool : s.ptpoolNext = pool)
    (hnext : next = pool + PAGE_SIZE) (hseg : pageAddr segtab = segtab)
    (haligned : pageAddr pool = pool)
    (hnone : (descriptors false).link (cells (frame false segtab) (segIndex va)) = none) :
    (s.mapPage segtab 0 va).mem.realmm = false ∧
      (s.mapPage segtab 0 va).mem.cells =
        TwoLevel.insert (descriptors false) cells (frame false segtab) (segIndex va) (pageIndex va)
          (frame false pool) (pool ||| 1) (pageAddr (va - 0) ||| 1) ∧
      (s.mapPage segtab 0 va).ptpoolNext = next := by
  subst hcells hpool hnext
  obtain ⟨hmap', hcells', hnext'⟩ := s.mapPage_insert 0 va hseg haligned
  have hunlinked : s.linked segtab (segIndex va) = none := by
    rw [PtPool.linked, hmap]
    exact hnone
  rw [hmap] at hmap' hcells'
  rw [hunlinked] at hnext'
  exact ⟨hmap', hcells', hnext'⟩

/-- A table at address 0 maps nothing, and a pool in the window whose pages fold onto
two takes the page table of the first segment for the third. -/
theorem zero_table_folding_pool :
    (MapSetup ⟨Mem.blank false, PTPOOL⟩ {0} [onePage 0 (0, 0)] ∧
      MapCall.latest false [onePage 0 (0, 0)] 0 0xC0000000 = some 0 ∧
      (PtPool.mapAll ⟨Mem.blank false, PTPOOL⟩ [onePage 0 (0, 0)]).mem.mmuWalk 0 (0 ||| 1)
        0xC0000000 = none) ∧
      MapSetup ⟨Mem.blank false, VV_WINDOW⟩ {CODE_SEGTAB}
        ([(0, 0), (1, 0), (2, 1)].map (onePage CODE_SEGTAB)) ∧
      MapCall.latest false ([(0, 0), (1, 0), (2, 1)].map (onePage CODE_SEGTAB)) CODE_SEGTAB
        0xC0000000 = some 0 ∧
      (PtPool.mapAll ⟨Mem.blank false, VV_WINDOW⟩ ([(0, 0), (1, 0), (2, 1)].map
        (onePage CODE_SEGTAB))).mem.mmuWalk 0 (CODE_SEGTAB ||| 1) 0xC0000000 = none := by
  refine ⟨⟨setup_onePage [(0, 0)] rfl rfl (by decide) (by decide), rfl, mmuWalk_none _ _⟩,
    setup_onePage [(0, 0), (1, 0), (2, 1)] rfl rfl (by decide) (by decide), by decide, ?_⟩
  have hall : PtPool.mapAll ⟨Mem.blank false, VV_WINDOW⟩ ([(0, 0), (1, 0), (2, 1)].map
      (onePage CODE_SEGTAB)) =
      (((PtPool.mapPage ⟨Mem.blank false, VV_WINDOW⟩ CODE_SEGTAB 0
        (onePage CODE_SEGTAB (0, 0)).lo).mapPage CODE_SEGTAB 0
        (onePage CODE_SEGTAB (1, 0)).lo).mapPage CODE_SEGTAB 0 (onePage CODE_SEGTAB (2, 1)).lo) := by
    rw [List.map_cons, List.map_cons, List.map_cons, List.map_nil, PtPool.mapAll, List.foldl_cons,
      List.foldl_cons, List.foldl_cons, List.foldl_nil, mapRangeOff_onePage _ _ (by decide),
      mapRangeOff_onePage _ _ (by decide), mapRangeOff_onePage _ _ (by decide)]
  obtain ⟨hmap₁, hcells₁, hnext₁⟩ := fresh_segment (s := ⟨Mem.blank false, VV_WINDOW⟩)
    CODE_SEGTAB (onePage CODE_SEGTAB (0, 0)).lo rfl rfl rfl rfl (by decide) (by decide)
    (by decide +kernel)
  obtain ⟨hmap₂, hcells₂, hnext₂⟩ := fresh_segment CODE_SEGTAB
    (onePage CODE_SEGTAB (1, 0)).lo hmap₁ hcells₁
    hnext₁ rfl (by decide) (by decide) (by decide +kernel)
  obtain ⟨hmap₃, hcells₃, -⟩ := fresh_segment CODE_SEGTAB
    (onePage CODE_SEGTAB (2, 1)).lo hmap₂ hcells₂
    hnext₂ rfl (by decide) (by decide) (by decide +kernel)
  rw [hall, PtPool.mmuWalk_eq _ (by decide) (by decide), PtPool.descriptor, hmap₃, hcells₃]
  decide +kernel

end Nx88
