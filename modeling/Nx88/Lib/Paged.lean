import Mathlib.Data.List.GetD
import Mathlib.Logic.Function.Basic
/-!
# Stores made of pages

A store that keeps its cells in pages of one size, and transfers that go page by
page: what is left of the page of the address first, the rest from the next page
on.  Seen cell by cell the pages do not matter: a transfer of `n` cells is the
run of `n` cells behind its address.
-/

namespace Nx88.Lib.Paged

variable {α : Type}

def splice (f : Nat → α) (off : Nat) (xs : List α) (i : Nat) : α :=
  if off ≤ i then xs.getD (i - off) (f i) else f i

theorem splice_nil (f : Nat → α) (off : Nat) : splice f off [] = f := by
  funext i
  unfold splice
  simp

theorem splice_below {f : Nat → α} {off i : Nat} (xs : List α) (h : i < off) :
    splice f off xs i = f i := by
  unfold splice
  rw [if_neg (by omega)]

theorem splice_beyond {f : Nat → α} {off i : Nat} {xs : List α} (h : off + xs.length ≤ i) :
    splice f off xs i = f i := by
  unfold splice
  split
  · exact List.getD_eq_default _ _ (by omega)
  · rfl

theorem splice_at {f : Nat → α} (off : Nat) {xs : List α} {k : Nat} (h : k < xs.length) :
    splice f off xs (off + k) = xs[k] := by
  unfold splice
  rw [if_pos (by omega), show off + k - off = k by omega, List.getD_eq_getElem _ _ h]

section Pages

variable (P : Nat)

def cell (pages : Nat → Nat → α) (a : Nat) : α := pages (a / P) (a % P)

/-- Read `n` cells from address `a` on.  Every turn takes at least one cell, so
`n` turns are enough. -/
def read (pages : Nat → Nat → α) : Nat → Nat → Nat → List α
  | 0, _, _ => []
  | turns + 1, a, n =>
    let off := a % P
    let take := min n (P - off)
    (List.range take).map (fun i => pages (a / P) (off + i)) ++
      read pages turns (a + take) (n - take)

def write (pages : Nat → Nat → α) : Nat → Nat → List α → Nat → Nat → α
  | 0, _, _ => pages
  | turns + 1, a, data =>
    let off := a % P
    let take := min data.length (P - off)
    write (Function.update pages (a / P) (splice (pages (a / P)) off (data.take take))) turns
      (a + take) (data.drop take)

variable {P}

theorem cell_in_page (pages : Nat → Nat → α) {a i : Nat} (h : a % P + i < P) :
    cell P pages (a + i) = pages (a / P) (a % P + i) := by
  have hsplit : a + i = P * (a / P) + (a % P + i) := by
    have := Nat.div_add_mod a P
    omega
  unfold cell
  rw [hsplit, Nat.mul_add_div (by omega), Nat.mul_add_mod, Nat.div_eq_of_lt h,
    Nat.mod_eq_of_lt h, Nat.add_zero]

theorem read_eq (hP : 0 < P) (pages : Nat → Nat → α) {turns n : Nat} (a : Nat)
    (hturns : n ≤ turns) :
    read P pages turns a n = (List.range n).map (fun i => cell P pages (a + i)) := by
  induction turns generalizing a n with
  | zero =>
    obtain rfl : n = 0 := by omega
    rfl
  | succ turns ih =>
    have hoff : a % P < P := Nat.mod_lt a hP
    unfold read
    simp only
    generalize htake : min n (P - a % P) = take
    rw [ih (a + take) (by omega)]
    obtain ⟨rest, rfl⟩ : ∃ rest, n = take + rest := ⟨n - take, by omega⟩
    rw [Nat.add_sub_cancel_left, List.range_add, List.map_append, List.map_map]
    congr 1
    · apply List.map_congr_left
      intro i hi
      have hi := List.mem_range.1 hi
      exact (cell_in_page pages (by omega)).symm
    · apply List.map_congr_left
      intro i _
      rw [Function.comp_apply, Nat.add_assoc]

theorem cell_update_splice (pages : Nat → Nat → α) (a : Nat) {xs : List α}
    (hfits : a % P + xs.length ≤ P) (b : Nat) :
    cell P (Function.update pages (a / P) (splice (pages (a / P)) (a % P) xs)) b =
      splice (cell P pages) a xs b := by
  have ha := Nat.div_add_mod a P
  have hb := Nat.div_add_mod b P
  by_cases hpage : b / P = a / P
  · rw [hpage] at hb
    unfold cell splice
    rw [hpage, Function.update_self]
    by_cases hle : a ≤ b
    · rw [if_pos (by omega), if_pos hle]
      simp only [hpage]
      congr 1
      omega
    · rw [if_neg (by omega), if_neg hle]
      simp only [hpage]
  · have hkept : cell P (Function.update pages (a / P) (splice (pages (a / P)) (a % P) xs)) b =
        cell P pages b := by
      unfold cell
      rw [Function.update_of_ne hpage]
    rw [hkept]
    rcases Nat.lt_or_gt_of_ne hpage with hlow | hhigh
    · rw [splice_below]
      exact Nat.lt_of_not_le fun hle => absurd (Nat.div_le_div_right (c := P) hle) (by omega)
    · rw [splice_beyond]
      have hnext : P * (a / P + 1) ≤ P * (b / P) := Nat.mul_le_mul_left P hhigh
      rw [Nat.mul_add, Nat.mul_one] at hnext
      omega

theorem splice_append (f : Nat → α) (off : Nat) (xs ys : List α) :
    splice (splice f off xs) (off + xs.length) ys = splice f off (xs ++ ys) := by
  funext i
  unfold splice
  by_cases hlow : i < off + xs.length
  · rw [if_neg (by omega)]
    by_cases hoff : off ≤ i
    · rw [if_pos hoff, if_pos hoff, List.getD_append _ _ _ _ (by omega)]
    · rw [if_neg hoff, if_neg hoff]
  · rw [if_pos (by omega), if_pos (by omega), if_pos (by omega),
      List.getD_append_right _ _ _ _ (by omega), List.getD_eq_default xs _ (by omega),
      show i - (off + xs.length) = i - off - xs.length by omega]

theorem cell_write (hP : 0 < P) (pages : Nat → Nat → α) {turns : Nat} (a : Nat) {data : List α}
    (hturns : data.length ≤ turns) :
    cell P (write P pages turns a data) = splice (cell P pages) a data := by
  induction turns generalizing pages a data with
  | zero =>
    obtain rfl : data = [] := List.length_eq_zero_iff.1 (by omega)
    exact (splice_nil _ _).symm
  | succ turns ih =>
    have hoff : a % P < P := Nat.mod_lt a hP
    unfold write
    simp only
    generalize htake : min data.length (P - a % P) = take
    have hlen : (data.take take).length = take := by
      rw [List.length_take]
      omega
    rw [ih _ (a + take) (by rw [List.length_drop]; omega)]
    have hpage : cell P (Function.update pages (a / P)
        (splice (pages (a / P)) (a % P) (data.take take))) =
          splice (cell P pages) a (data.take take) :=
      funext (cell_update_splice pages a (by omega))
    have hsplit := splice_append (cell P pages) a (data.take take) (data.drop take)
    rw [hlen, List.take_append_drop] at hsplit
    rw [hpage, hsplit]

end Pages

end Nx88.Lib.Paged
