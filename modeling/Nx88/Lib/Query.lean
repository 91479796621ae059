import Mathlib.Data.List.Basic
/-!
# Computations that ask a store

A `Query` is a computation that may read a store, each location depending on
what the earlier ones held.  Its answer is determined by the locations it asks
about in one run, so an answer kept for later is still right as long as those
locations hold what they held.
-/

namespace Nx88.Lib

inductive Query (ι ω α : Type) where
  | ret (value : α)
  | ask (loc : ι) (next : ω → Query ι ω α)

namespace Query

variable {ι ω α β : Type}

/-- The answer over the store `look`. -/
def answer (look : ι → ω) : Query ι ω α → α
  | ret value => value
  | ask loc next => (next (look loc)).answer look

/-- The locations asked about on the way to that answer. -/
def asked (look : ι → ω) : Query ι ω α → List ι
  | ret _ => []
  | ask loc next => loc :: (next (look loc)).asked look

def bind : Query ι ω α → (α → Query ι ω β) → Query ι ω β
  | ret value, f => f value
  | ask loc next, f => ask loc fun w => (next w).bind f

@[simp] theorem answer_ret (look : ι → ω) (value : α) :
    (ret value : Query ι ω α).answer look = value := rfl

@[simp] theorem answer_ask (look : ι → ω) (loc : ι) (next : ω → Query ι ω α) :
    (ask loc next).answer look = (next (look loc)).answer look := rfl

@[simp] theorem answer_bind (look : ι → ω) (q : Query ι ω α) (f : α → Query ι ω β) :
    (q.bind f).answer look = (f (q.answer look)).answer look := by
  induction q with
  | ret value => rfl
  | ask loc next ih => exact ih (look loc)

@[simp] theorem answer_ite (look : ι → ω) (p : Prop) [Decidable p] (q r : Query ι ω α) :
    (if p then q else r).answer look = if p then q.answer look else r.answer look := by
  split <;> rfl

theorem asked_bind (look : ι → ω) (q : Query ι ω α) (f : α → Query ι ω β) :
    (q.bind f).asked look = q.asked look ++ (f (q.answer look)).asked look := by
  induction q with
  | ret value => rfl
  | ask loc next ih => exact congrArg (loc :: ·) (ih (look loc))

theorem answer_congr {look look' : ι → ω} {q : Query ι ω α}
    (h : ∀ loc ∈ q.asked look, look' loc = look loc) : q.answer look' = q.answer look := by
  induction q with
  | ret value => rfl
  | ask loc next ih =>
    have hloc : look' loc = look loc := h loc (List.mem_cons_self ..)
    rw [answer_ask, answer_ask, hloc]
    exact ih (look loc) fun l hl => h l (List.mem_cons_of_mem _ hl)

end Query

end Nx88.Lib
