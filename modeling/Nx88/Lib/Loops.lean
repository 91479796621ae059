import Mathlib.Data.Fintype.EquivFin
/-!
# Loops

A loop is a turn on its state, which ends it with a result or hands on the next
state.  `iterate` runs it under a fuel, `reach` is the state a turn begins with.
-/

namespace Nx88.Lib.Loops

inductive Turn (σ ρ : Type) where
  | done (r : ρ)
  | next (s : σ)
deriving DecidableEq

variable {σ ρ : Type} (turn : σ → Turn σ ρ)

def iterate : Nat → σ → Option ρ
  | 0, _ => none
  | n + 1, s =>
    match turn s with
    | .done r => some r
    | .next s => iterate n s

/-- The state turn `k` begins with, if the loop comes to it. -/
def reach (s : σ) : Nat → Option σ
  | 0 => some s
  | k + 1 =>
    match turn s with
    | .done _ => none
    | .next s => reach s k

variable {turn} {s s' : σ} {r : ρ}

theorem iterate_of_done (h : turn s = .done r) (n : Nat) : iterate turn (n + 1) s = some r := by
  rw [iterate, h]

theorem iterate_of_next (h : turn s = .next s') (n : Nat) :
    iterate turn (n + 1) s = iterate turn n s' := by
  rw [iterate, h]

theorem reach_of_next (h : turn s = .next s') (k : Nat) :
    reach turn s (k + 1) = reach turn s' k := by
  rw [reach, h]

theorem reach_succ {k : Nat} : reach turn s (k + 1) =
    (reach turn s k).bind fun x =>
      match turn x with
      | .done _ => none
      | .next x' => some x' := by
  induction k generalizing s with
  | zero =>
    rw [reach, reach, Option.bind_some]
    cases turn s <;> rfl
  | succ k ih =>
    rw [reach, reach]
    cases turn s with
    | done r => rfl
    | next s' => exact ih

theorem iterate_eq_some_iff :
    (∃ n, iterate turn n s = some r) ↔ ∃ k x, reach turn s k = some x ∧ turn x = .done r := by
  constructor
  · rintro ⟨n, h⟩
    induction n generalizing s with
    | zero => exact nomatch h
    | succ n ih =>
      cases hs : turn s with
      | done r' =>
        rw [iterate_of_done hs, Option.some.injEq] at h
        exact ⟨0, s, rfl, hs.trans (congrArg Turn.done h)⟩
      | next s' =>
        rw [iterate_of_next hs] at h
        obtain ⟨k, x, hk, hx⟩ := ih h
        exact ⟨k + 1, x, (reach_of_next hs k).trans hk, hx⟩
  · rintro ⟨k, x, hk, hx⟩
    induction k generalizing s with
    | zero =>
      rw [reach, Option.some.injEq] at hk
      subst hk
      exact ⟨1, iterate_of_done hx 0⟩
    | succ k ih =>
      cases hs : turn s with
      | done r' =>
        rw [reach, hs] at hk
        exact nomatch hk
      | next s' =>
        rw [reach_of_next hs] at hk
        obtain ⟨n, hn⟩ := ih hk
        exact ⟨n + 1, (iterate_of_next hs n).trans hn⟩

theorem iterate_mono {m n : Nat} (hle : m ≤ n) (h : iterate turn m s = some r) :
    iterate turn n s = some r := by
  induction m generalizing s n with
  | zero => exact nomatch h
  | succ m ih =>
    obtain ⟨n, rfl⟩ := Nat.exists_eq_add_of_le hle
    rw [Nat.add_right_comm] at hle ⊢
    cases hs : turn s with
    | done r' =>
      rw [iterate_of_done hs] at h
      rw [iterate_of_done hs, h]
    | next s' =>
      rw [iterate_of_next hs] at h
      rw [iterate_of_next hs]
      exact ih (Nat.le_add_right m n) h

theorem iterate_unique {m n : Nat} {r' : ρ} (h : iterate turn m s = some r)
    (h' : iterate turn n s = some r') : r = r' := by
  rcases Nat.le_total m n with hle | hle
  · exact Option.some.inj ((iterate_mono hle h).symm.trans h')
  · exact Option.some.inj (h.symm.trans (iterate_mono hle h'))

theorem reach_le {j k : Nat} {x : σ} (hjk : j ≤ k) (hk : reach turn s k = some x) :
    ∃ y, reach turn s j = some y := by
  induction k, hjk using Nat.le_induction generalizing x with
  | base => exact ⟨x, hk⟩
  | succ k _ ih =>
    rw [reach_succ] at hk
    obtain ⟨y, hy, -⟩ := Option.bind_eq_some_iff.1 hk
    exact ih hy

theorem reach_shift {i j : Nat} {x : σ} (hi : reach turn s i = some x)
    (hj : reach turn s j = some x) (k : Nat) : reach turn s (i + k) = reach turn s (j + k) := by
  induction k with
  | zero => exact hi.trans hj.symm
  | succ k ih => rw [← Nat.add_assoc, ← Nat.add_assoc, reach_succ, reach_succ, ih]

/-- Over finitely many states, a loop ends if and only if it comes to no state twice. -/
theorem terminates_iff [Finite σ] :
    (∃ n r, iterate turn n s = some r) ↔
      ∀ i j x, reach turn s i = some x → reach turn s j = some x → i = j := by
  constructor
  · rintro ⟨n, r, hn⟩
    obtain ⟨k, x, hk, hx⟩ := iterate_eq_some_iff.1 ⟨n, hn⟩
    have hend : reach turn s (k + 1) = none := by rw [reach_succ, hk, Option.bind_some, hx]
    -- a state met again is met for ever, also past the last turn
    have hlt : ∀ i j y, i < j → reach turn s i = some y → reach turn s j ≠ some y := by
      intro i j y hij hi hj
      have hforever : ∀ m, ∃ z, reach turn s (i + m * (j - i)) = some z ∧ z = y := by
        intro m
        induction m with
        | zero => exact ⟨y, by rw [Nat.zero_mul]; exact hi, rfl⟩
        | succ m ih =>
          obtain ⟨z, hz, rfl⟩ := ih
          refine ⟨z, ?_, rfl⟩
          have hshift := reach_shift hz hi (j - i)
          rw [Nat.add_mul, Nat.one_mul, ← Nat.add_assoc, hshift, Nat.add_sub_cancel' hij.le]
          exact hj
      obtain ⟨z, hz, -⟩ := hforever (k + 1)
      have hle : k + 1 ≤ i + (k + 1) * (j - i) := by
        have hmul := Nat.le_mul_of_pos_right (k + 1) (Nat.sub_pos_of_lt hij)
        omega
      obtain ⟨y', hy'⟩ := reach_le hle hz
      exact nomatch hend.symm.trans hy'
    intro i j y hi hj
    rcases Nat.lt_trichotomy i j with h | h | h
    · exact absurd hj (hlt i j y h hi)
    · exact h
    · exact absurd hi (hlt j i y h hj)
  · intro hdistinct
    by_contra hnever
    have hgo : ∀ k, ∃ x, reach turn s k = some x := by
      intro k
      induction k with
      | zero => exact ⟨s, rfl⟩
      | succ k ih =>
        obtain ⟨x, hx⟩ := ih
        cases ht : turn x with
        | done r =>
          obtain ⟨n, hn⟩ := iterate_eq_some_iff.2 ⟨k, x, hx, ht⟩
          exact absurd ⟨n, r, hn⟩ hnever
        | next x' => exact ⟨x', by rw [reach_succ, hx, Option.bind_some, ht]⟩
    choose f hf using hgo
    refine not_injective_infinite_finite f fun i j hij => ?_
    exact hdistinct i j (f i) (hf i) (hij ▸ hf j)

/-! ## Two loops -/

def Turn.map {ρ' : Type} (g : ρ → ρ') : Turn σ ρ → Turn σ ρ'
  | .done r => .done (g r)
  | .next s => .next s

theorem iterate_congr {ρ' : Type} {turn' : σ → Turn σ ρ'} (g : ρ → ρ')
    (h : ∀ k x, reach turn s k = some x → turn' x = (turn x).map g) (n : Nat) :
    iterate turn' n s = (iterate turn n s).map g := by
  induction n generalizing s with
  | zero => rfl
  | succ n ih =>
    have hs := h 0 s rfl
    cases ht : turn s with
    | done r =>
      rw [ht] at hs
      rw [iterate_of_done hs, iterate_of_done ht]
      rfl
    | next s' =>
      rw [ht] at hs
      rw [iterate_of_next hs, iterate_of_next ht]
      exact ih fun k x hx => h (k + 1) x ((reach_of_next ht k).trans hx)

section Lockstep

variable {σ' ρ' : Type} {turn' : σ' → Turn σ' ρ'} {R : σ → σ' → Prop} {S : ρ → ρ' → Prop}

end Lockstep

end Nx88.Lib.Loops
