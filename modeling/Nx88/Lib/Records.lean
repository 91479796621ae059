import Mathlib.Data.List.Infix
/-!
# Records read in pieces

A reader hands out a list of records.  Each read asks for at most so many
elements and gets a piece of one record; what is left of it comes first next time.
An empty record costs a read.
-/

namespace Nx88.Lib.Records

variable {α : Type}

def serve (records : List (List α)) (max : Nat) : List α × List (List α) :=
  match records with
  | [] => ([], [])
  | r :: rest => (r.take max, if r.length ≤ max then rest else r.drop max :: rest)

/-- What successive reads return. -/
def returns (records : List (List α)) : List Nat → List (List α)
  | [] => []
  | max :: sizes => (serve records max).1 :: returns (serve records max).2 sizes

def left (records : List (List α)) : List Nat → List (List α)
  | [] => records
  | max :: sizes => left (serve records max).2 sizes

theorem serve_flatten (records : List (List α)) (max : Nat) :
    (serve records max).1 ++ (serve records max).2.flatten = records.flatten := by
  cases records with
  | nil => rfl
  | cons r rest =>
    rw [serve]
    dsimp only
    split
    · next h => rw [List.take_of_length_le h, List.flatten_cons]
    · rw [List.flatten_cons, List.flatten_cons, ← List.append_assoc, List.take_append_drop]

theorem returns_flatten (records : List (List α)) (sizes : List Nat) :
    (returns records sizes).flatten ++ (left records sizes).flatten = records.flatten := by
  induction sizes generalizing records with
  | nil => rfl
  | cons max sizes ih =>
    rw [returns, left, List.flatten_cons, List.append_assoc, ih, serve_flatten]

theorem serve_piece (records : List (List α)) (max : Nat) :
    ((serve records max).1 = [] ∨ ∃ r ∈ records, (serve records max).1 <:+: r) ∧
      ∀ r' ∈ (serve records max).2, ∃ r ∈ records, r' <:+: r := by
  cases records with
  | nil => exact ⟨.inl rfl, fun r' hr' => absurd hr' List.not_mem_nil⟩
  | cons r rest =>
    refine ⟨.inr ⟨r, List.mem_cons_self, (List.take_prefix max r).isInfix⟩, fun r' hr' => ?_⟩
    rw [serve] at hr'
    dsimp only at hr'
    split at hr'
    · exact ⟨r', List.mem_cons_of_mem r hr', List.infix_rfl⟩
    · rcases List.mem_cons.1 hr' with rfl | hrest
      · exact ⟨r, List.mem_cons_self, (List.drop_suffix max r).isInfix⟩
      · exact ⟨r', List.mem_cons_of_mem r hrest, List.infix_rfl⟩

theorem returns_piece {records : List (List α)} {sizes : List Nat} {p : List α}
    (hp : p ∈ returns records sizes) : p = [] ∨ ∃ r ∈ records, p <:+: r := by
  induction sizes generalizing records with
  | nil => exact absurd hp List.not_mem_nil
  | cons max sizes ih =>
    obtain ⟨hfirst, hrest⟩ := serve_piece records max
    rcases List.mem_cons.1 hp with rfl | hp
    · exact hfirst
    · refine (ih hp).imp id fun ⟨r', hr', hpiece⟩ => ?_
      obtain ⟨r, hr, hinfix⟩ := hrest r' hr'
      exact ⟨r, hr, hpiece.trans hinfix⟩

/-- A read that asks for something returns nothing only at an empty record and at
the end. -/
theorem serve_eq_nil {records : List (List α)} {max : Nat} (hmax : 1 ≤ max) :
    (serve records max).1 = [] ↔ records = [] ∨ records.head? = some [] := by
  cases records with
  | nil => exact iff_of_true rfl (.inl rfl)
  | cons r rest =>
    have htake : r.take max = [] ↔ r = [] := by
      rw [List.take_eq_nil_iff]
      exact or_iff_right (by omega)
    rw [serve, htake, List.head?_cons, Option.some.injEq]
    exact ⟨.inr, fun h => h.resolve_left (List.cons_ne_nil r rest)⟩

theorem returns_getElem? (records : List (List α)) (sizes : List Nat) (k : Nat) :
    (returns records sizes)[k]? =
      sizes[k]?.map fun max => (serve (left records (sizes.take k)) max).1 := by
  induction sizes generalizing records k with
  | nil => rfl
  | cons max sizes ih =>
    cases k with
    | zero => rfl
    | succ k => exact ih _ k

/-- What is still to be handed out, an empty record counted. -/
def weight (records : List (List α)) : Nat := records.flatten.length + records.length

theorem weight_serve (records : List (List α)) {max : Nat} (hmax : 1 ≤ max) :
    weight (serve records max).2 ≤ weight records - 1 := by
  cases records with
  | nil => exact le_refl _
  | cons r rest =>
    rw [serve]
    dsimp only
    split
    · simp only [weight, List.flatten_cons, List.length_append, List.length_cons]
      omega
    · simp only [weight, List.flatten_cons, List.length_append, List.length_cons, List.length_drop]
      omega

theorem left_eq_nil {records : List (List α)} {sizes : List Nat} (hsizes : ∀ max ∈ sizes, 1 ≤ max)
    (henough : weight records ≤ sizes.length) : left records sizes = [] := by
  induction sizes generalizing records with
  | nil =>
    have hzero : records.length = 0 := by
      rw [weight, List.length_nil] at henough
      omega
    exact List.length_eq_zero_iff.1 hzero
  | cons max sizes ih =>
    have hless := weight_serve records (hsizes max List.mem_cons_self)
    rw [List.length_cons] at henough
    exact ih (fun m hm => hsizes m (List.mem_cons_of_mem max hm)) (by omega)

end Nx88.Lib.Records
