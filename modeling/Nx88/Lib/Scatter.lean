import Mathlib.Order.Basic
/-!
# Scattered stores

A store is a function on addresses; addresses with one key name one cell.
Values are put one after another at given places, and the last one put into a
cell stays.  Reading the values back at given addresses, whatever the values,
takes exactly that every value is put, into the cell it is read from, and into
that cell alone.
-/

namespace Nx88.Lib.Scatter

variable {A K V : Type} [DecidableEq K] (key : A → K)

def put (s : A → V) (a : A) (v : V) : A → V := fun b => if key b = key a then v else s b

def scatter (s : A → V) (place : Nat → A) (val : Nat → V) : Nat → A → V
  | 0 => s
  | n + 1 => put key (scatter s place val n) (place n) (val n)

variable {key} {s : A → V} {place : Nat → A} {val : Nat → V} {n : Nat}

variable (key s place val n) in
theorem scatter_cases (b : A) :
    (scatter key s place val n b = s b ∧ ∀ i < n, key b ≠ key (place i)) ∨
      ∃ i < n, key b = key (place i) ∧ scatter key s place val n b = val i ∧
        ∀ j < n, i < j → key b ≠ key (place j) := by
  induction n with
  | zero => exact .inl ⟨rfl, fun i hi => absurd hi (Nat.not_lt_zero i)⟩
  | succ n ih =>
    by_cases hb : key b = key (place n)
    · refine .inr ⟨n, Nat.lt_succ_self n, hb, if_pos hb, fun j hj hlt => ?_⟩
      omega
    · have hkeep : scatter key s place val (n + 1) b = scatter key s place val n b := if_neg hb
      rw [hkeep]
      rcases ih with ⟨hold, hnot⟩ | ⟨i, hi, hkey, hval, hlast⟩
      · refine .inl ⟨hold, fun i hi => ?_⟩
        rcases Nat.lt_succ_iff_lt_or_eq.1 hi with hlt | rfl
        · exact hnot i hlt
        · exact hb
      · refine .inr ⟨i, by omega, hkey, hval, fun j hj hlt => ?_⟩
        rcases Nat.lt_succ_iff_lt_or_eq.1 hj with hj' | rfl
        · exact hlast j hj' hlt
        · exact hb

theorem scatter_of_outside {b : A} (h : ∀ i < n, key b ≠ key (place i)) :
    scatter key s place val n b = s b := by
  rcases scatter_cases key s place val n b with
    ⟨hkeep, -⟩ | ⟨i, hi, hkey, -⟩
  · exact hkeep
  · exact absurd hkey (h i hi)

theorem scatter_congr {val' : Nat → V} (h : ∀ i < n, val i = val' i) :
    scatter key s place val n = scatter key s place val' n := by
  induction n with
  | zero => rfl
  | succ n ih =>
    rw [scatter, scatter, ih fun i hi => h i (by omega), h n (Nat.lt_succ_self n)]

theorem scatter_add (k : Nat) :
    scatter key s place val (k + n) =
      scatter key (scatter key s place val k) (fun i => place (k + i)) (fun i => val (k + i)) n := by
  induction n with
  | zero => rfl
  | succ n ih => rw [← Nat.add_assoc, scatter, scatter, ih]

theorem scatter_respects (hs : ∀ a b, key a = key b → s a = s b) {a b : A} (hab : key a = key b) :
    scatter key s place val n a = scatter key s place val n b := by
  induction n with
  | zero => exact hs a b hab
  | succ n ih =>
    change (if key a = _ then _ else _) = (if key b = _ then _ else _)
    rw [hab, ih]

/-! ## Reading back -/

/-- What is read at `dest 0 .. dest (n-1)` is what was to be put, and no other
cell has changed. -/
structure ReadBack (key : A → K) (s s' : A → V) (dest : Nat → A) (val : Nat → V) (n : Nat) :
    Prop where
  data : ∀ i < n, s' (dest i) = val i
  other : ∀ b, (∀ i < n, key b ≠ key (dest i)) → s' b = s b

variable {dest : Nat → A} {count : Nat}

omit [DecidableEq K] in
theorem readBack_congr {s' : A → V} {val' : Nat → V} (h : ReadBack key s s' dest val n)
    (hval : ∀ i < n, val i = val' i) : ReadBack key s s' dest val' n :=
  ⟨fun i hi => (h.data i hi).trans (hval i hi), h.other⟩

/-- Every value in its own cell, one cell each. -/
structure Placed (key : A → K) (place dest : Nat → A) (count n : Nat) : Prop where
  full : count = n
  own : ∀ i < n, key (dest i) = key (place i)
  apart : ∀ i < n, ∀ j < n, i ≠ j → key (dest i) ≠ key (dest j)

theorem readBack_of_placed (h : Placed key place dest count n) (val : Nat → V) :
    ReadBack key s (scatter key s place val count) dest val n := by
  obtain ⟨rfl, hown, hapart⟩ := h
  refine ⟨fun i hi => ?_, fun b hb => ?_⟩
  · rcases scatter_cases key s place val count (dest i) with ⟨-, hnot⟩ | ⟨j, hj, hkey, hval, -⟩
    · exact absurd (hown i hi) (hnot i hi)
    · by_cases hij : i = j
      · rw [hval, hij]
      · exact absurd (hkey.trans (hown j hj).symm) (hapart i hi j hj hij)
  · exact scatter_of_outside fun i hi hkey => hb i hi (hkey.trans (hown i hi).symm)

theorem own_of_readBack [Nontrivial V] {q : A} {i : Nat}
    (h : ∀ val : Nat → V, scatter key s place val count q = val i) :
    i < count ∧ key q = key (place i) := by
  obtain ⟨v, hv⟩ := exists_ne (s q)
  have hi := h fun j => if j = i then v else s q
  rw [if_pos rfl] at hi
  rcases scatter_cases key s place (fun j => if j = i then v else s q) count q with
    ⟨hkeep, -⟩ | ⟨j, hj, hkey, hval, -⟩
  · exact absurd (hkeep.symm.trans hi).symm hv
  · by_cases hji : j = i
    · subst hji
      exact ⟨hj, hkey⟩
    · rw [hi, if_neg hji] at hval
      exact absurd hval hv

/-- To be read back whatever they are, values have to be placed. -/
theorem placed_of_readBack [Nontrivial V] (hs : ∀ a b, key a = key b → s a = s b)
    (h : ∀ val : Nat → V, ReadBack key s (scatter key s place val count) dest val n) :
    Placed key place dest count n := by
  have hown : ∀ i < n, i < count ∧ key (dest i) = key (place i) :=
    fun i hi => own_of_readBack fun val => (h val).data i hi
  refine ⟨?_, fun i hi => (hown i hi).2, fun i hi j hj hij hkey => ?_⟩
  · by_contra hne
    have hlt : n < count := by
      rcases Nat.lt_or_gt_of_ne hne with hlt | hgt
      · exact absurd (hown count hlt).1 (Nat.lt_irrefl count)
      · exact hgt
    -- the cell of the first value too many ends up with a value too many
    obtain ⟨v, hv⟩ := exists_ne (s (place n))
    have hsurplus : scatter key s place (fun i => if i < n then s (place n) else v) count
        (place n) = v := by
      rcases scatter_cases key s place (fun i => if i < n then s (place n) else v) count
          (place n) with
        ⟨-, hnot⟩ | ⟨i, hi, hkey, hval, hlast⟩
      · exact absurd rfl (hnot n hlt)
      · have hni : ¬ i < n := fun hin => hlast n hlt hin rfl
        rw [hval, if_neg hni]
    have hback := h fun i => if i < n then s (place n) else v
    by_cases hin : ∃ i < n, key (place n) = key (dest i)
    · obtain ⟨i, hi, hkey⟩ := hin
      have hdata := hback.data i hi
      rw [if_pos hi, ← scatter_respects hs hkey, hsurplus] at hdata
      exact hv hdata
    · have hkeep := hback.other (place n) fun i hi hkey => hin ⟨i, hi, hkey⟩
      rw [hsurplus] at hkeep
      exact hv hkeep
  · obtain ⟨v, hv⟩ := exists_ne (s (dest i))
    have hback := h fun k => if k = i then v else s (dest i)
    have hi' := hback.data i hi
    have hj' := hback.data j hj
    rw [if_pos rfl] at hi'
    rw [if_neg (Ne.symm hij), ← scatter_respects hs hkey, hi'] at hj'
    exact hv hj'

end Nx88.Lib.Scatter
