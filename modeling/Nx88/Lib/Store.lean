import Mathlib.Data.List.Basic
/-!
# Transfers of a store

A store is read and written in ranges.  A history of transfers is coherent if
every read finds what the writes before it have left.
-/

namespace Nx88.Lib.Store

variable {V : Type}

/-- What was moved from `off` on, in or out. -/
structure Transfer (V : Type) where
  wrote : Bool
  off : Nat
  data : List V

namespace Transfer

def at? (a : Transfer V) (x : Nat) : Option V := if a.off ≤ x then a.data[x - a.off]? else none

def apply (a : Transfer V) (s : Nat → V) (x : Nat) : V :=
  if a.wrote then (a.at? x).getD (s x) else s x

/-- A read finds what the store holds. -/
def Finds (a : Transfer V) (s : Nat → V) : Prop :=
  a.wrote = false → ∀ x v, a.at? x = some v → v = s x

theorem at?_range (wrote : Bool) (off n : Nat) (val : Nat → V) (x : Nat) :
    (⟨wrote, off, (List.range n).map val⟩ : Transfer V).at? x =
      if off ≤ x ∧ x < off + n then some (val (x - off)) else none := by
  unfold at?
  dsimp only
  by_cases hlo : off ≤ x
  · rw [if_pos hlo, List.getElem?_map]
    by_cases hhi : x - off < n
    · rw [List.getElem?_range hhi, if_pos ⟨hlo, by omega⟩, Option.map_some]
    · rw [if_neg (by omega), List.getElem?_eq_none (by rw [List.length_range]; omega),
        Option.map_none]
  · rw [if_neg hlo, if_neg fun h => hlo h.1]

theorem apply_of_none {a : Transfer V} {x : Nat} (s : Nat → V)
    (h : a.wrote = true → a.at? x = none) : a.apply s x = s x := by
  unfold apply
  split
  · next hw => rw [h hw, Option.getD_none]
  · rfl

theorem apply_read {a : Transfer V} (s : Nat → V) (hw : a.wrote = false) : a.apply s = s := by
  funext x
  exact apply_of_none s fun h => absurd (hw.symm.trans h) Bool.false_ne_true

end Transfer

def after (s : Nat → V) : List (Transfer V) → Nat → V
  | [] => s
  | a :: as => after (a.apply s) as

/-- Every read finds what the store holds at its turn. -/
def Coherent (s : Nat → V) : List (Transfer V) → Prop
  | [] => True
  | a :: as => a.Finds s ∧ Coherent (a.apply s) as

theorem after_append (s : Nat → V) (as bs : List (Transfer V)) :
    after s (as ++ bs) = after (after s as) bs := by
  induction as generalizing s with
  | nil => rfl
  | cons a as ih => exact ih (a.apply s)

theorem coherent_append (s : Nat → V) (as bs : List (Transfer V)) :
    Coherent s (as ++ bs) ↔ Coherent s as ∧ Coherent (after s as) bs := by
  induction as generalizing s with
  | nil => exact (iff_of_eq (true_and _)).symm
  | cons a as ih =>
    rw [List.cons_append, Coherent, Coherent, ih, and_assoc]
    rfl

theorem coherent_concat (s : Nat → V) (as : List (Transfer V)) (a : Transfer V) :
    Coherent s (as ++ [a]) ↔ Coherent s as ∧ a.Finds (after s as) := by
  rw [coherent_append, Coherent, Coherent, and_true]

section

variable {s : Nat → V} {as bs cs : List (Transfer V)} {w r : Transfer V} {x : Nat} {u v : V}

end

end Nx88.Lib.Store
