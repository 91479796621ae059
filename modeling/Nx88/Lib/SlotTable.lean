import Mathlib.Data.List.FinRange
import Mathlib.Logic.Function.Basic
/-!
# Fixed tables of keyed slots

A table with a fixed number of slots, searched from the front.  A key claims the
first unused slot the first time it is looked up and keeps it, so the table is a
partial map from keys to values that refuses new keys once it is full.
-/

namespace Nx88.Lib.SlotTable

variable {n : Nat} {K V : Type} [DecidableEq K]

structure Slot (K V : Type) where
  key : K
  used : Bool
  val : V

def find (t : Fin n → Slot K V) (k : K) : Option (Fin n) :=
  (List.finRange n).find? (fun i => (t i).used && decide ((t i).key = k))

def free (t : Fin n → Slot K V) : Option (Fin n) :=
  (List.finRange n).find? (fun i => !(t i).used)

def claim (t : Fin n → Slot K V) (k : K) : Option (Fin n) × (Fin n → Slot K V) :=
  match find t k with
  | some i => (some i, t)
  | none =>
    match free t with
    | some i => (some i, Function.update t i { t i with key := k, used := true })
    | none => (none, t)

def get (t : Fin n → Slot K V) (k : K) : Option V := (find t k).map (fun i => (t i).val)

def put (t : Fin n → Slot K V) (i : Fin n) (v : V) : Fin n → Slot K V :=
  Function.update t i { t i with val := v }

/-! ## Searching -/

theorem find_some {t : Fin n → Slot K V} {k : K} {i : Fin n} (h : find t k = some i) :
    (t i).used = true ∧ (t i).key = k := by
  have hp := List.find?_some h
  simpa using hp

theorem find_none {t : Fin n → Slot K V} {k : K} (h : find t k = none) (i : Fin n) :
    (t i).used = true → (t i).key ≠ k := by
  have hp := List.find?_eq_none.1 h i (List.mem_finRange i)
  simpa using hp

omit [DecidableEq K] in
theorem free_some {t : Fin n → Slot K V} {i : Fin n} (h : free t = some i) :
    (t i).used = false := by
  have hp := List.find?_some h
  simpa using hp

theorem find_congr {t t' : Fin n → Slot K V} {k : K}
    (h : ∀ i, ((t i).used = true ∧ (t i).key = k) ↔ ((t' i).used = true ∧ (t' i).key = k)) :
    find t k = find t' k := by
  unfold find
  congr 1
  funext i
  rw [Bool.eq_iff_iff]
  simpa using h i

/-! ## Storing -/

omit [DecidableEq K] in
theorem put_used (t : Fin n → Slot K V) (i j : Fin n) (v : V) :
    (put t i v j).used = (t j).used := by
  unfold put
  by_cases h : j = i
  · subst h
    simp
  · simp [Function.update_of_ne h]

omit [DecidableEq K] in
theorem put_key (t : Fin n → Slot K V) (i j : Fin n) (v : V) :
    (put t i v j).key = (t j).key := by
  unfold put
  by_cases h : j = i
  · subst h
    simp
  · simp [Function.update_of_ne h]

@[simp] theorem find_put (t : Fin n → Slot K V) (i : Fin n) (v : V) (k : K) :
    find (put t i v) k = find t k :=
  find_congr (fun j => by rw [put_used, put_key])

theorem get_put_self {t : Fin n → Slot K V} {k : K} {i : Fin n} (h : find t k = some i) (v : V) :
    get (put t i v) k = some v := by
  unfold get
  rw [find_put, h]
  simp [put]

theorem get_put_of_ne {t : Fin n → Slot K V} {k k' : K} {i : Fin n} (h : find t k = some i)
    (hne : k' ≠ k) (v : V) : get (put t i v) k' = get t k' := by
  unfold get
  rw [find_put]
  cases h' : find t k' with
  | none => rfl
  | some j =>
    have hji : j ≠ i := by
      intro hji
      subst hji
      exact hne ((find_some h').2.symm.trans (find_some h).2)
    simp [put, Function.update_of_ne hji]

/-! ## Claiming -/

theorem claim_of_find {t : Fin n → Slot K V} {k : K} {i : Fin n} (h : find t k = some i) :
    claim t k = (some i, t) := by
  simp [claim, h]

/-- What claiming does: the table is unchanged, or an unused slot takes the key. -/
theorem claim_cases {t t' : Fin n → Slot K V} {k : K} {r : Option (Fin n)}
    (h : claim t k = (r, t')) :
    (∃ i, find t k = some i ∧ r = some i ∧ t' = t) ∨
    (∃ i, find t k = none ∧ (t i).used = false ∧ r = some i ∧
      t' = Function.update t i { t i with key := k, used := true }) ∨
    (find t k = none ∧ (∀ i, (t i).used = true) ∧ r = none ∧ t' = t) := by
  unfold claim at h
  cases hfind : find t k with
  | some i =>
    simp only [hfind, Prod.mk.injEq] at h
    exact .inl ⟨i, rfl, h.1.symm, h.2.symm⟩
  | none =>
    cases hfree : free t with
    | some i =>
      simp only [hfind, hfree, Prod.mk.injEq] at h
      exact .inr (.inl ⟨i, rfl, free_some hfree, h.1.symm, h.2.symm⟩)
    | none =>
      simp only [hfind, hfree, Prod.mk.injEq] at h
      refine .inr (.inr ⟨rfl, fun i => ?_, h.1.symm, h.2.symm⟩)
      simpa using List.find?_eq_none.1 hfree i (List.mem_finRange i)

theorem find_update_of_ne {t : Fin n → Slot K V} {i : Fin n} {k k' : K}
    (hfree : (t i).used = false) (hne : k' ≠ k) :
    find (Function.update t i { t i with key := k, used := true }) k' = find t k' := by
  apply find_congr
  intro j
  by_cases hj : j = i
  · subst hj
    simp [hfree, Ne.symm hne]
  · simp [Function.update_of_ne hj]

theorem find_update_self {t : Fin n → Slot K V} {i : Fin n} {k : K} (hnone : find t k = none) :
    find (Function.update t i { t i with key := k, used := true }) k = some i := by
  cases h : find (Function.update t i { t i with key := k, used := true }) k with
  | none =>
    have hkey := find_none h i (by simp)
    simp at hkey
  | some j =>
    by_cases hj : j = i
    · rw [hj]
    · have hp := find_some h
      rw [Function.update_of_ne hj] at hp
      exact absurd hp.2 (find_none hnone j hp.1)

theorem get_claim_of_ne {t t' : Fin n → Slot K V} {k k' : K} {r : Option (Fin n)}
    (h : claim t k = (r, t')) (hne : k' ≠ k) : get t' k' = get t k' := by
  rcases claim_cases h with ⟨i, -, -, rfl⟩ | ⟨i, -, hfree, -, rfl⟩ | ⟨-, -, -, rfl⟩
  · rfl
  · unfold get
    rw [find_update_of_ne hfree hne]
    cases h' : find t k' with
    | none => rfl
    | some j =>
      have hji : j ≠ i := by
        rintro rfl
        rw [(find_some h').1] at hfree
        cases hfree
      simp [Function.update_of_ne hji]
  · rfl

theorem find_claim_of_isSome {t t' : Fin n → Slot K V} {k k' : K} {r : Option (Fin n)} {j : Fin n}
    (h : claim t k = (r, t')) (hfind : find t k' = some j) : find t' k' = some j := by
  rcases claim_cases h with ⟨i, -, -, rfl⟩ | ⟨i, hnone, hfree, -, rfl⟩ | ⟨-, -, -, rfl⟩
  · exact hfind
  · have hne : k' ≠ k := by
      rintro rfl
      rw [hnone] at hfind
      cases hfind
    rw [find_update_of_ne hfree hne, hfind]
  · exact hfind

theorem find_claim_self {t t' : Fin n → Slot K V} {k : K} {i : Fin n}
    (h : claim t k = (some i, t')) : find t' k = some i := by
  rcases claim_cases h with ⟨j, hfind, hr, rfl⟩ | ⟨j, hnone, -, hr, rfl⟩ | ⟨-, -, hr, -⟩
  · rw [hfind, hr]
  · rw [find_update_self hnone, hr]
  · cases hr

end Nx88.Lib.SlotTable
