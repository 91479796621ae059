/-!
# Runs of a deterministic system

A system moves by labelled turns.  A run is the list of its turns: where it
ends, what holds along it, and what it emits.  Invariants are proved for one
turn and used for whole runs.
-/

namespace Nx88.Lib.Runs

variable {σ τ α : Type} (run : τ → σ → σ)

def after (s : σ) : List τ → σ
  | [] => s
  | t :: ts => after (run t s) ts

/-- A condition on every turn of a run, at the state it is taken in. -/
def Along (ok : τ → σ → Prop) (s : σ) : List τ → Prop
  | [] => True
  | t :: ts => ok t s ∧ Along ok (run t s) ts

def trace (emit : τ → σ → List α) (s : σ) : List τ → List α
  | [] => []
  | t :: ts => emit t s ++ trace emit (run t s) ts

variable {run} {ok : τ → σ → Prop} {emit : τ → σ → List α}

instance Along.decidable [∀ t s, Decidable (ok t s)] :
    (s : σ) → (ts : List τ) → Decidable (Along run ok s ts)
  | _, [] => .isTrue trivial
  | s, t :: ts => @instDecidableAnd _ _ _ (Along.decidable (run t s) ts)

@[simp] theorem after_nil (s : σ) : after run s [] = s := rfl

@[simp] theorem after_cons (s : σ) (t : τ) (ts : List τ) :
    after run s (t :: ts) = after run (run t s) ts := rfl

@[simp] theorem trace_cons (s : σ) (t : τ) (ts : List τ) :
    trace run emit s (t :: ts) = emit t s ++ trace run emit (run t s) ts := rfl

theorem after_append (s : σ) (ts us : List τ) :
    after run s (ts ++ us) = after run (after run s ts) us := by
  induction ts generalizing s with
  | nil => rfl
  | cons t ts ih => exact ih (run t s)

theorem along_append {s : σ} {ts us : List τ} (h : Along run ok s (ts ++ us)) :
    Along run ok s ts ∧ Along run ok (after run s ts) us := by
  induction ts generalizing s with
  | nil => exact ⟨trivial, h⟩
  | cons t ts ih =>
    obtain ⟨hts, hus⟩ := ih h.2
    exact ⟨⟨h.1, hts⟩, hus⟩

theorem trace_append (s : σ) (ts us : List τ) :
    trace run emit s (ts ++ us) = trace run emit s ts ++ trace run emit (after run s ts) us := by
  induction ts generalizing s with
  | nil => rfl
  | cons t ts ih =>
    rw [List.cons_append, trace_cons, ih, after_cons, trace_cons, List.append_assoc]

theorem Along.invariant {s : σ} {ts : List τ} (h : Along run ok s ts) (inv : σ → Prop)
    (hturn : ∀ t s, inv s → ok t s → inv (run t s)) (hs : inv s) : inv (after run s ts) := by
  induction ts generalizing s with
  | nil => exact hs
  | cons t ts ih => exact ih h.2 (hturn t s hs h.1)

theorem Along.invariant_of_silent {s : σ} {ts : List τ} (h : Along run ok s ts)
    (inv : σ → Prop)
    (hsilent : trace run emit s ts = [])
    (hturn : ∀ t s, inv s → ok t s → emit t s = [] → inv (run t s)) (hs : inv s) :
    inv (after run s ts) := by
  induction ts generalizing s with
  | nil => exact hs
  | cons t ts ih =>
    obtain ⟨hemit, hrest⟩ := List.append_eq_nil_iff.1 hsilent
    exact ih h.2 hrest (hturn t s hs h.1 hemit)

end Nx88.Lib.Runs
