import Nx88.Lib.TwoLevel
import Nx88.Memory.Bytes
import Nx88.Mmu
/-!
# The synthetic page tables

`map_range_off` writes page tables into the memory that the table walk reads.
Seen as frames of descriptors, the memory is a store of two-level tables and the
mapping of one page an insertion, with the next page of the pool as the fresh
leaf.
-/

namespace Nx88

open Lib.Words Lib

def PAGE_SIZE : U32 := 4096

/-- First page of the pool that page tables are taken from. -/
def PTPOOL : U32 := 0xDF000000

/-! ## The code -/

def Mem.zero (m : Mem) (a : U32) (n : Nat) : Mem := m.load a (List.replicate n 0)

/-- Memory, and `ptpool_next`. -/
structure PtPool where
  mem : Mem
  ptpoolNext : U32

namespace PtPool

/-- The page table for `va`, taken from the pool where the segment has none. -/
def pageTable (s : PtPool) (segtab va : U32) : U32 × PtPool :=
  let sidx := (va >>> 22) &&& 0x3FF
  let sdesc := s.mem.r32 (segtab + sidx * 4)
  if sdesc &&& 1 ≠ 0 then (pageAddr sdesc, s)
  else
    let pgtab := s.ptpoolNext
    let mem := s.mem.zero pgtab PAGE_SIZE.toNat
    (pgtab, ⟨mem.w32 (segtab + sidx * 4) (pgtab ||| 1), s.ptpoolNext + PAGE_SIZE⟩)

def mapPage (s : PtPool) (segtab off va : U32) : PtPool :=
  let (pgtab, s) := s.pageTable segtab va
  { s with mem := s.mem.w32 (pgtab + ((va >>> 12) &&& 0x3FF) * 4) (pageAddr (va - off) ||| 1) }

def mapLoop (s : PtPool) (segtab hi off va : U32) : Nat → PtPool
  | 0 => s
  | n + 1 =>
    if va < hi then (s.mapPage segtab off va).mapLoop segtab hi off (va + PAGE_SIZE) n else s

/-- The loop ends in this many passes unless `va` wraps around, which it does not
where `hi` is at most the last page. -/
def mapRangeOff (s : PtPool) (segtab lo hi off : U32) : PtPool :=
  s.mapLoop segtab hi off lo 0x100000

end PtPool

/-! ## Frames of descriptors -/

/-- The page that `page_of` finds a page's bytes on. -/
def frame (realmm : Bool) (p : U32) : U32 := cphys realmm p >>> 12

/-- Address of descriptor `i` of the table at `p`. -/
def cellAddr (p : U32) (i : Fin 1024) : U32 := p + BitVec.ofNat 32 (4 * i.val)

def segIndex (va : U32) : Fin 1024 := ⟨va.toNat / 4194304 % 1024, Nat.mod_lt _ (by decide)⟩

def pageIndex (va : U32) : Fin 1024 := ⟨va.toNat / 4096 % 1024, Nat.mod_lt _ (by decide)⟩

def cellOffset (i : Fin 1024) (k : Nat) : U32 := BitVec.ofNat 32 (4 * i.val + k)

def Mem.cells (m : Mem) (f : U32) (i : Fin 1024) : U32 :=
  be32 (m.pages f (cellOffset i 0)) (m.pages f (cellOffset i 1)) (m.pages f (cellOffset i 2))
    (m.pages f (cellOffset i 3))

/-- A descriptor is a link to a page table, or the descriptor of a page; with its
valid bit clear it is neither. -/
def descriptors (realmm : Bool) : TwoLevel.Reading U32 U32 U32 where
  blank := 0
  link d := if d &&& 1 = 0 then none else some (frame realmm (pageAddr d))
  value d := if d &&& 1 = 0 then none else some d
  link_blank := rfl
  value_blank := rfl

theorem toNat_index (a : U32) (k : Nat) : (a >>> k &&& 0x3FF).toNat = a.toNat / 2 ^ k % 1024 := by
  have hand : (a >>> k).toNat &&& 1023 = (a >>> k).toNat % 1024 :=
    Nat.and_two_pow_sub_one_eq_mod (a >>> k).toNat 10
  have hmask : (0x3FF : U32).toNat = 1023 := rfl
  rw [BitVec.toNat_and, hmask, hand, BitVec.toNat_ushiftRight, Nat.shiftRight_eq_div_pow]

theorem cellAddr_eq (p va : U32) {k : Nat} {i : Fin 1024} (hi : i.val = va.toNat / 2 ^ k % 1024) :
    p + ((va >>> k) &&& 0x3FF) * 4 = cellAddr p i := by
  rw [cellAddr]
  congr 1
  apply BitVec.eq_of_toNat_eq
  have hfour : (4 : U32).toNat = 4 := rfl
  rw [BitVec.toNat_mul, toNat_index, BitVec.toNat_ofNat, hfour, hi, Nat.mul_comm]

theorem cellAddr_seg (p va : U32) : p + ((va >>> 22) &&& 0x3FF) * 4 = cellAddr p (segIndex va) :=
  cellAddr_eq p va rfl

theorem cellAddr_page (p va : U32) : p + ((va >>> 12) &&& 0x3FF) * 4 = cellAddr p (pageIndex va) :=
  cellAddr_eq p va rfl

theorem index_eq_iff (va vb : U32) :
    segIndex va = segIndex vb ∧ pageIndex va = pageIndex vb ↔ pageAddr va = pageAddr vb := by
  have ha := va.isLt
  have hb := vb.isLt
  rw [segIndex, segIndex, pageIndex, pageIndex, Fin.mk.injEq, Fin.mk.injEq, ← BitVec.toNat_inj,
    toNat_pageAddr, toNat_pageAddr]
  omega

theorem frame_page (realmm : Bool) {p a : U32} (h : p.toNat ≤ a.toNat)
    (hpage : a.toNat < p.toNat / 4096 * 4096 + 4096) : frame realmm a = frame realmm p := by
  have ha := a.isLt
  apply BitVec.eq_of_toNat_eq
  rw [frame, frame, toNat_shift12, toNat_shift12, toNat_cphys, toNat_cphys]
  cases realmm
  all_goals
    simp
    split_ifs
    all_goals omega

/-! ## Memory as a store of frames -/

section Cells

variable {m : Mem} {p : U32}

theorem toNat_aligned (hp : pageAddr p = p) : p.toNat % 4096 = 0 := by
  have hnat := congrArg BitVec.toNat hp
  rw [toNat_pageAddr] at hnat
  omega

theorem toNat_page_add (hp : pageAddr p = p) {k : Nat} (hk : k < 4096) :
    (p + BitVec.ofNat 32 k).toNat = p.toNat + k := by
  have hlt := p.isLt
  have hmod := toNat_aligned hp
  rw [BitVec.toNat_add, BitVec.toNat_ofNat]
  omega

theorem frame_add (realmm : Bool) (hp : pageAddr p = p) {k : Nat} (hk : k < 4096) :
    frame realmm (p + BitVec.ofNat 32 k) = frame realmm p := by
  have hadd := toNat_page_add hp hk
  have hmod := toNat_aligned hp
  exact frame_page realmm (by omega) (by omega)

theorem offset_page_add (hp : pageAddr p = p) {k : Nat} (hk : k < 4096) :
    (p + BitVec.ofNat 32 k) &&& 4095 = BitVec.ofNat 32 k := by
  have hmod := toNat_aligned hp
  apply BitVec.eq_of_toNat_eq
  rw [toNat_and_4095, toNat_page_add hp hk, BitVec.toNat_ofNat]
  omega

theorem poke_pages (m : Mem) (a o : U32) (v : U8) (f x : U32) :
    (m.poke a o v).pages f x = if f = frame m.realmm a ∧ x = o then v else m.pages f x := by
  change Function.update m.pages (frame m.realmm a) (Function.update (m.pageOf a) o v) f x = _
  by_cases hf : f = frame m.realmm a
  · rw [hf, Function.update_self, Function.update_apply]
    by_cases hx : x = o
    · rw [if_pos hx, if_pos ⟨rfl, hx⟩]
    · rw [if_neg hx, if_neg fun h => hx h.2]
      rfl
  · rw [Function.update_of_ne hf, if_neg fun h => hf h.1]

theorem poke_realmm (m : Mem) (a o : U32) (v : U8) : (m.poke a o v).realmm = m.realmm := rfl

theorem cellOffset_add (i : Fin 1024) (k : Nat) :
    cellOffset i 0 + BitVec.ofNat 32 k = cellOffset i k := by
  rw [cellOffset, cellOffset, ← BitVec.ofNat_add]
  rfl

theorem cellOffset_inj {i j : Fin 1024} {k l : Nat} (hk : k < 4) (hl : l < 4) :
    cellOffset i k = cellOffset j l ↔ i = j ∧ k = l := by
  have hi := i.isLt
  have hj := j.isLt
  rw [cellOffset, cellOffset, ← BitVec.toNat_inj, BitVec.toNat_ofNat, BitVec.toNat_ofNat,
    Fin.ext_iff]
  omega

theorem cellAddr_small (hp : pageAddr p = p) (i : Fin 1024) :
    (cellAddr p i &&& 4095) = cellOffset i 0 ∧ (cellAddr p i &&& 4095) ≤ 4092 := by
  have hi := i.isLt
  have hoffset : (cellAddr p i &&& 4095) = cellOffset i 0 := offset_page_add hp (by omega)
  refine ⟨hoffset, ?_⟩
  rw [hoffset, BitVec.le_def, cellOffset, BitVec.toNat_ofNat]
  have hmax : (4092 : U32).toNat = 4092 := rfl
  omega

theorem r32_cell (m : Mem) (hp : pageAddr p = p) (i : Fin 1024) :
    m.r32 (cellAddr p i) = m.cells (frame m.realmm p) i := by
  have hi := i.isLt
  obtain ⟨hoffset, hsmall⟩ := cellAddr_small hp i
  have hpage : m.pageOf (cellAddr p i) = m.pages (frame m.realmm p) :=
    congrArg m.pages (frame_add m.realmm hp (k := 4 * i.val) (by omega))
  rw [Mem.r32, if_pos hsmall]
  dsimp only
  rw [hpage, hoffset, Mem.cells, ← cellOffset_add i 1, ← cellOffset_add i 2, ← cellOffset_add i 3]
  rfl

theorem w32_cell (m : Mem) (hp : pageAddr p = p) (i : Fin 1024) (v : U32) :
    (m.w32 (cellAddr p i) v).cells = TwoLevel.put m.cells (frame m.realmm p) i v := by
  have hi := i.isLt
  obtain ⟨hoffset, hsmall⟩ := cellAddr_small hp i
  have hframe : frame m.realmm (cellAddr p i) = frame m.realmm p :=
    frame_add m.realmm hp (k := 4 * i.val) (by omega)
  have hbyte : ∀ f j k, k < 4 → (m.w32 (cellAddr p i) v).pages f (cellOffset j k) =
      if f = frame m.realmm p ∧ j = i then byteOf v k else m.pages f (cellOffset j k) := by
    intro f j k hk
    have hinj : ∀ l, l < 4 → (cellOffset j k = cellOffset i l ↔ j = i ∧ k = l) :=
      fun l hl => cellOffset_inj hk hl
    rw [Mem.w32, if_pos hsmall]
    dsimp only
    rw [hoffset]
    change ((((m.poke (cellAddr p i) (cellOffset i 0) (byteOf v 0)).poke (cellAddr p i)
      (cellOffset i 0 + BitVec.ofNat 32 1) (byteOf v 1)).poke (cellAddr p i)
      (cellOffset i 0 + BitVec.ofNat 32 2) (byteOf v 2)).poke (cellAddr p i)
      (cellOffset i 0 + BitVec.ofNat 32 3) (byteOf v 3)).pages f (cellOffset j k) = _
    rw [cellOffset_add, cellOffset_add, cellOffset_add]
    simp only [poke_pages, poke_realmm, hframe, hinj 0 (by decide), hinj 1 (by decide),
      hinj 2 (by decide), hinj 3 (by decide)]
    by_cases hhere : f = frame m.realmm p ∧ j = i
    · simp only [hhere, true_and]
      interval_cases k
      all_goals rfl
    · have hno : ∀ l, ¬(f = frame m.realmm p ∧ j = i ∧ k = l) :=
        fun l h => hhere ⟨h.1, h.2.1⟩
      rw [if_neg (hno 3), if_neg (hno 2), if_neg (hno 1), if_neg (hno 0), if_neg hhere]
  funext f j
  rw [TwoLevel.put_apply, Mem.cells, hbyte f j 0 (by decide), hbyte f j 1 (by decide),
    hbyte f j 2 (by decide), hbyte f j 3 (by decide)]
  by_cases hhere : f = frame m.realmm p ∧ j = i
  · rw [if_pos hhere, if_pos hhere, if_pos hhere, if_pos hhere, if_pos hhere]
    exact be32_byteOf v
  · rw [if_neg hhere, if_neg hhere, if_neg hhere, if_neg hhere, if_neg hhere, Mem.cells]

theorem load_zeros (m : Mem) (hp : pageAddr p = p) (f x : U32) {k n : Nat} (hk : k + n ≤ 4096) :
    (m.load (p + BitVec.ofNat 32 k) (List.replicate n 0)).pages f x =
      if f = frame m.realmm p ∧ k ≤ x.toNat ∧ x.toNat < k + n then 0 else m.pages f x := by
  induction n generalizing m k with
  | zero => rw [if_neg (by omega)]; rfl
  | succ n ih =>
    have hnext : p + BitVec.ofNat 32 k + BitVec.ofNat 32 1 = p + BitVec.ofNat 32 (k + 1) := by
      rw [BitVec.add_assoc, ← BitVec.ofNat_add]
    have hnext : p + BitVec.ofNat 32 k + 1 = p + BitVec.ofNat 32 (k + 1) := hnext
    rw [List.replicate_succ, Mem.load, hnext, ih (m.w8 (p + BitVec.ofNat 32 k) 0) (by omega),
      Mem.w8_realmm, Mem.w8, offset_page_add hp (by omega), poke_pages,
      frame_add m.realmm hp (by omega)]
    have hx : x = BitVec.ofNat 32 k ↔ x.toNat = k := by
      rw [← BitVec.toNat_inj, BitVec.toNat_ofNat]
      omega
    simp only [hx]
    by_cases hf : f = frame m.realmm p
    · simp only [hf, true_and]
      split_ifs
      all_goals first | rfl | omega
    · simp only [hf, false_and, if_false]

theorem zero_cells (m : Mem) (hp : pageAddr p = p) :
    (m.zero p PAGE_SIZE.toNat).cells =
      TwoLevel.clear (descriptors m.realmm) m.cells (frame m.realmm p) := by
  have hbyte : ∀ f j k, k < 4 → (m.zero p PAGE_SIZE.toNat).pages f (cellOffset j k) =
      if f = frame m.realmm p then 0 else m.pages f (cellOffset j k) := by
    intro f j k hk
    have hj := j.isLt
    have hsize : PAGE_SIZE.toNat = 4096 := rfl
    have hload := load_zeros m hp f (cellOffset j k) (k := 0) (n := 4096)
      (Nat.zero_add 4096).le
    have hstart : p + BitVec.ofNat 32 0 = p := BitVec.add_zero p
    rw [hstart] at hload
    rw [Mem.zero, hsize, hload, cellOffset, BitVec.toNat_ofNat]
    exact if_congr (and_iff_left ⟨Nat.zero_le _, by omega⟩) rfl rfl
  funext f j
  rw [TwoLevel.clear_apply, Mem.cells, hbyte f j 0 (by decide), hbyte f j 1 (by decide),
    hbyte f j 2 (by decide), hbyte f j 3 (by decide)]
  by_cases hf : f = frame m.realmm p
  · rw [if_pos hf, if_pos hf, if_pos hf, if_pos hf, if_pos hf]
    rfl
  · rw [if_neg hf, if_neg hf, if_neg hf, if_neg hf, if_neg hf, Mem.cells]

end Cells

end Nx88
