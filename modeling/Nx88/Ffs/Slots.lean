import Nx88.Ffs.Reader
import Nx88.Lib.Layout
/-!
# The slots of the inodes

Where the reader's address arithmetic does not wrap, inode `ino` is record
`ino % ipg` of the inode area of its cylinder group.
-/

namespace Nx88.Ffs

open Lib.Layout

theorem u32_of_lt {n : Nat} (h : n < 2 ^ 32) : u32 n = n := Nat.mod_eq_of_lt h

variable {sb : FfsSb}

/-! ## Inode areas -/

variable (sb) in
/-- The fragment at which the inode area of a group starts.  It rotates with the
group. -/
def areaFrag (cg : Nat) : Nat :=
  sb.fpg * cg + sb.cgoffset * (cg &&& (2 ^ 32 - 1 - sb.cgmask)) + sb.iblkno

variable (sb) in
def areaFrags : Nat := sb.ipg / sb.inopb * sb.frag

variable (sb) in
def inodeArea (cg : Nat) : Set Nat :=
  Set.Ico (areaFrag sb cg * sb.fsize) ((areaFrag sb cg + areaFrags sb) * sb.fsize)

variable (sb) in
def inodeSlot (ino : Nat) : Set Nat :=
  Set.Ico (dinodeByte sb ino) (dinodeByte sb ino + FFS_DINODE_SIZE)

/-- Inodes fill whole blocks, and blocks are whole fragments. -/
structure WholeBlocks (sb : FfsSb) : Prop where
  group : sb.inopb ∣ sb.ipg
  block : sb.inopb * 128 = sb.frag * sb.fsize

/-- Every group keeps its inodes among its own fragments, and all of them lie
below 4 GiB. -/
structure OwnAreas (sb : FfsSb) (ncg : Nat) : Prop where
  own : ∀ cg < ncg, areaFrag sb cg + areaFrags sb ≤ sb.fpg * (cg + 1)
  small : ∀ cg < ncg, (areaFrag sb cg + areaFrags sb) * sb.fsize ≤ 2 ^ 32

theorem fpg_le_areaFrag (cg : Nat) : sb.fpg * cg ≤ areaFrag sb cg := by
  unfold areaFrag
  omega

theorem areaFrags_bytes (h : WholeBlocks sb) : areaFrags sb * sb.fsize = sb.ipg * 128 := by
  calc areaFrags sb * sb.fsize
      = sb.ipg / sb.inopb * (sb.frag * sb.fsize) := by rw [areaFrags, Nat.mul_assoc]
    _ = sb.ipg / sb.inopb * sb.inopb * 128 := by rw [← h.block, Nat.mul_assoc]
    _ = sb.ipg * 128 := by rw [Nat.div_mul_cancel h.group]

theorem inodeArea_eq (h : WholeBlocks sb) (cg : Nat) :
    inodeArea sb cg = area (fun cg => areaFrag sb cg * sb.fsize) sb.ipg 128 cg := by
  rw [inodeArea, area, Nat.add_mul, areaFrags_bytes h]

theorem inodeArea_disjoint {ncg cg cg' : Nat} (h : OwnAreas sb ncg) (hcg : cg < ncg)
    (hcg' : cg' < ncg) (hne : cg ≠ cg') : Disjoint (inodeArea sb cg) (inodeArea sb cg') := by
  have hbefore : ∀ a b, a < ncg → a < b →
      (areaFrag sb a + areaFrags sb) * sb.fsize ≤ areaFrag sb b * sb.fsize := by
    intro a b ha hlt
    apply Nat.mul_le_mul_right
    calc areaFrag sb a + areaFrags sb
        ≤ sb.fpg * (a + 1) := h.own a ha
      _ ≤ sb.fpg * b := Nat.mul_le_mul_left _ hlt
      _ ≤ areaFrag sb b := fpg_le_areaFrag b
  rw [inodeArea, inodeArea, Set.Ico_disjoint_Ico]
  rcases Nat.lt_or_gt_of_ne hne with hlt | hlt
  · exact (min_le_left _ _).trans ((hbefore cg cg' hcg hlt).trans (le_max_right _ _))
  · exact (min_le_right _ _).trans ((hbefore cg' cg hcg' hlt).trans (le_max_left _ _))

/-! ## The reader's arithmetic -/

/-- The blocks before an inode and the inodes before it in its block are the
inodes before it in its group. -/
theorem inodes_before (h : WholeBlocks sb) (k : Nat) :
    k / sb.inopb * sb.frag * sb.fsize + k % sb.inopb * 128 = k * 128 := by
  calc k / sb.inopb * sb.frag * sb.fsize + k % sb.inopb * 128
      = (sb.inopb * (k / sb.inopb) + k % sb.inopb) * 128 := by
        rw [Nat.mul_assoc, ← h.block]
        ring
    _ = k * 128 := by rw [Nat.div_add_mod]

/-- Below 4 GiB no step of the reader's address arithmetic wraps. -/
theorem dinodeByte_exact (h : WholeBlocks sb) (hfsize : 0 < sb.fsize) {ino : Nat}
    (hsmall : record (fun cg => areaFrag sb cg * sb.fsize) sb.ipg 128 ino + 128 ≤ 2 ^ 32) :
    dinodeByte sb ino = record (fun cg => areaFrag sb cg * sb.fsize) sb.ipg 128 ino := by
  have hbefore := inodes_before h (ino % sb.ipg)
  rw [Nat.mod_mod_of_dvd ino h.group] at hbefore
  unfold dinodeByte blockbyte
  rw [record] at hsmall ⊢
  simp only [areaFrag, FFS_DINODE_SIZE] at hsmall ⊢
  generalize sb.fpg * (ino / sb.ipg) = A at hsmall ⊢
  generalize sb.cgoffset * (ino / sb.ipg &&& (2 ^ 32 - 1 - sb.cgmask)) = B at hsmall ⊢
  generalize ino % sb.ipg / sb.inopb * sb.frag = C at hbefore ⊢
  have hle : A + B + sb.iblkno ≤ (A + B + sb.iblkno) * sb.fsize :=
    Nat.le_mul_of_pos_right _ hfsize
  have hCle : C ≤ C * sb.fsize := Nat.le_mul_of_pos_right _ hfsize
  have hsum : (A + B + sb.iblkno + C) * sb.fsize =
      (A + B + sb.iblkno) * sb.fsize + C * sb.fsize := Nat.add_mul _ _ _
  rw [u32_of_lt (n := A) (by omega), u32_of_lt (n := B) (by omega),
    u32_of_lt (n := A + B) (by omega), u32_of_lt (n := A + B + sb.iblkno) (by omega),
    u32_of_lt (n := C) (by omega), u32_of_lt (n := A + B + sb.iblkno + C) (by omega),
    u32_of_lt (n := (A + B + sb.iblkno + C) * sb.fsize) (by omega),
    u32_of_lt (n := ino % sb.inopb * 128) (by omega), u32_of_lt (by omega)]
  omega

/-! ## Slots -/

theorem inodeSlot_eq {ncg ino : Nat} (hblocks : WholeBlocks sb) (hareas : OwnAreas sb ncg)
    (hino : ino < ncg * sb.ipg) :
    inodeSlot sb ino = slot (fun cg => areaFrag sb cg * sb.fsize) sb.ipg 128 ino := by
  have hipg : 0 < sb.ipg := Nat.pos_of_mul_pos_left (Nat.zero_lt_of_lt hino)
  have hcg : ino / sb.ipg < ncg := (Nat.div_lt_iff_lt_mul hipg).2 hino
  have hfsize : 0 < sb.fsize := by
    have hinopb : 0 < sb.inopb := Nat.pos_of_dvd_of_pos hblocks.group hipg
    have hblock : 0 < sb.frag * sb.fsize := by
      rw [← hblocks.block]
      omega
    exact Nat.pos_of_mul_pos_left hblock
  have hend : record (fun cg => areaFrag sb cg * sb.fsize) sb.ipg 128 ino + 128 ≤ 2 ^ 32 := by
    have hlast : (ino % sb.ipg + 1) * 128 ≤ sb.ipg * 128 :=
      Nat.mul_le_mul_right 128 (Nat.mod_lt ino hipg)
    have hsmall := hareas.small _ hcg
    rw [Nat.add_mul, areaFrags_bytes hblocks] at hsmall
    rw [record]
    omega
  rw [inodeSlot, slot, dinodeByte_exact hblocks hfsize hend]
  rfl

/-- The inodes of a file system of `ncg` groups never share a slot, and each lies
in the inode area of its group. -/
theorem inodeSlots_disjoint (sb : FfsSb) (ncg : Nat) (hblocks : WholeBlocks sb)
    (hareas : OwnAreas sb ncg) :
    (∀ ino < ncg * sb.ipg, inodeSlot sb ino ⊆ inodeArea sb (ino / sb.ipg)) ∧
      ∀ ino < ncg * sb.ipg, ∀ ino' < ncg * sb.ipg, ino ≠ ino' →
        Disjoint (inodeSlot sb ino) (inodeSlot sb ino') := by
  constructor
  · intro ino hino
    have hipg : 0 < sb.ipg := Nat.pos_of_mul_pos_left (Nat.zero_lt_of_lt hino)
    rw [inodeSlot_eq hblocks hareas hino, inodeArea_eq hblocks]
    exact slot_subset_area hipg ino
  · intro ino hino ino' hino' hne
    have hipg : 0 < sb.ipg := Nat.pos_of_mul_pos_left (Nat.zero_lt_of_lt hino)
    rw [inodeSlot_eq hblocks hareas hino, inodeSlot_eq hblocks hareas hino']
    apply slot_disjoint hipg hne
    intro hgroup
    have hcg : ino / sb.ipg < ncg := (Nat.div_lt_iff_lt_mul hipg).2 hino
    have hcg' : ino' / sb.ipg < ncg := (Nat.div_lt_iff_lt_mul hipg).2 hino'
    rw [← inodeArea_eq hblocks, ← inodeArea_eq hblocks]
    exact inodeArea_disjoint hareas hcg hcg' hgroup

/-- Two groups of two blocks of inodes, the second rotated by a block. -/
def twoGroups : FfsSb :=
  { ok := true, fsize := 1024, bsize := 8192, frag := 8, iblkno := 24, cgoffset := 8,
    cgmask := 0xFFFFFFF0, ipg := 128, fpg := 256, inopb := 64, nindir := 2048 }

theorem inodeSlots_twoGroups :
    inodeSlot twoGroups 128 ⊆ inodeArea twoGroups 1 ∧
      Disjoint (inodeSlot twoGroups 127) (inodeSlot twoGroups 128) := by
  have hblocks : WholeBlocks twoGroups := ⟨by decide, by decide⟩
  have hareas : OwnAreas twoGroups 2 := ⟨by decide, by decide⟩
  obtain ⟨hinside, hdisjoint⟩ := inodeSlots_disjoint twoGroups 2 hblocks hareas
  exact ⟨hinside 128 (by decide), hdisjoint 127 (by decide) 128 (by decide) (by decide)⟩

end Nx88.Ffs
