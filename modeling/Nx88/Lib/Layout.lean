import Mathlib.Order.CompletePartialOrder
import Mathlib.Order.Interval.Set.Disjoint
/-!
# Records in groups

Records of one width, numbered through, are stored in groups of `n`, each group
in an area of its own.  Records in areas that do not overlap do not overlap.
-/

namespace Nx88.Lib.Layout

variable (base : Nat → Nat) (n width : Nat)

def record (i : Nat) : Nat := base (i / n) + i % n * width

def slot (i : Nat) : Set Nat := Set.Ico (record base n width i) (record base n width i + width)

def area (g : Nat) : Set Nat := Set.Ico (base g) (base g + n * width)

variable {base n width}

theorem slot_subset_area (hn : 0 < n) (i : Nat) :
    slot base n width i ⊆ area base n width (i / n) := by
  apply Set.Ico_subset_Ico
  · exact Nat.le_add_right _ _
  · have hlast : (i % n + 1) * width ≤ n * width :=
      Nat.mul_le_mul_right width (Nat.mod_lt i hn)
    calc record base n width i + width
        = base (i / n) + (i % n + 1) * width := by
          rw [record, Nat.add_mul, Nat.one_mul, Nat.add_assoc]
      _ ≤ base (i / n) + n * width := Nat.add_le_add_left hlast _

theorem record_before {i j : Nat} (hgroup : i / n = j / n) (hlt : i % n < j % n) :
    record base n width i + width ≤ record base n width j := by
  have hmul : (i % n + 1) * width ≤ j % n * width := Nat.mul_le_mul_right width hlt
  rw [Nat.add_mul, Nat.one_mul] at hmul
  rw [record, record, hgroup]
  omega

theorem slot_disjoint_of_group {i j : Nat} (hgroup : i / n = j / n) (hne : i ≠ j) :
    Disjoint (slot base n width i) (slot base n width j) := by
  have hmod : i % n ≠ j % n := by
    intro heq
    apply hne
    calc i = n * (i / n) + i % n := (Nat.div_add_mod i n).symm
      _ = n * (j / n) + j % n := by rw [hgroup, heq]
      _ = j := Nat.div_add_mod j n
  rw [slot, slot, Set.Ico_disjoint_Ico]
  rcases Nat.lt_or_gt_of_ne hmod with hlt | hlt
  · have hbefore : record base n width i + width ≤ record base n width j :=
      record_before hgroup hlt
    omega
  · have hbefore : record base n width j + width ≤ record base n width i :=
      record_before hgroup.symm hlt
    omega

/-- Two records do not overlap if the areas of their groups, where these differ,
do not. -/
theorem slot_disjoint (hn : 0 < n) {i j : Nat} (hne : i ≠ j)
    (hareas : i / n ≠ j / n → Disjoint (area base n width (i / n)) (area base n width (j / n))) :
    Disjoint (slot base n width i) (slot base n width j) := by
  by_cases hgroup : i / n = j / n
  · exact slot_disjoint_of_group hgroup hne
  · exact (hareas hgroup).mono (slot_subset_area hn i) (slot_subset_area hn j)

end Nx88.Lib.Layout
