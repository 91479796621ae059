import Mathlib.Control.Monad.Basic
/-!
# Computations that are observed

An `Observed` computation works on a state and names places at which an observer
with a state of its own may look on.  Where the observer leaves the state alone at
every place that is reached, the computation goes as it goes without one.
-/

namespace Nx88.Lib

inductive Observed (σ ι α : Type) where
  | ret (value : α)
  | get (next : σ → Observed σ ι α)
  | put (s : σ) (next : Observed σ ι α)
  | observe (place : ι) (next : Observed σ ι α)

namespace Observed

variable {σ ι α β τ : Type}

def bind : Observed σ ι α → (α → Observed σ ι β) → Observed σ ι β
  | ret value, f => f value
  | get next, f => get fun s => (next s).bind f
  | put s next, f => put s (next.bind f)
  | observe place next, f => observe place (next.bind f)

instance : Monad (Observed σ ι) where
  pure := ret
  bind := bind

def act (f : σ → α × σ) : Observed σ ι α := get fun s => put (f s).2 (ret (f s).1)

def state : Observed σ ι σ := get ret

def modify (f : σ → σ) : Observed σ ι Unit := get fun s => put (f s) (ret ())

def look (place : ι) : Observed σ ι Unit := observe place (ret ())

/-- The turns of a loop, `n` of them at most; whether one of them has ended it. -/
def loop (turn : Observed σ ι Bool) : Nat → Observed σ ι Bool
  | 0 => ret false
  | n + 1 => turn.bind fun goes => if goes then loop turn n else ret true

/-! ## Without and with an observer -/

def plain : Observed σ ι α → σ → α × σ
  | ret value, s => (value, s)
  | get next, s => (next s).plain s
  | put s next, _ => next.plain s
  | observe _ next, s => next.plain s

/-- The computation under the observer `obs`, which sees the state and has its own. -/
def run (obs : ι → σ → τ → σ × τ) : Observed σ ι α → σ → τ → α × σ × τ
  | ret value, s, t => (value, s, t)
  | get next, s, t => (next s).run obs s t
  | put s next, _, t => next.run obs s t
  | observe place next, s, t => next.run obs (obs place s t).1 (obs place s t).2

/-- `ok` holds at every place that the computation reaches under `obs`. -/
def Along (ok : ι → σ → τ → Prop) (obs : ι → σ → τ → σ × τ) : Observed σ ι α → σ → τ → Prop
  | ret _, _, _ => True
  | get next, s, t => (next s).Along ok obs s t
  | put s next, _, t => next.Along ok obs s t
  | observe place next, s, t =>
    ok place s t ∧ next.Along ok obs (obs place s t).1 (obs place s t).2

variable {ok : ι → σ → τ → Prop} {obs : ι → σ → τ → σ × τ}

theorem plain_bind (p : Observed σ ι α) (f : α → Observed σ ι β) (s : σ) :
    (p.bind f).plain s = (f (p.plain s).1).plain (p.plain s).2 := by
  induction p generalizing s with
  | ret value => rfl
  | get next ih => exact ih s s
  | put s' next ih => exact ih s'
  | observe place next ih => exact ih s

/-- An observer that leaves the state alone where `ok` holds is not noticed by a
computation along which it does. -/
theorem run_of_along (hok : ∀ place s t, ok place s t → (obs place s t).1 = s)
    {p : Observed σ ι α} {s : σ} {t : τ} (h : p.Along ok obs s t) :
    ((p.run obs s t).1, (p.run obs s t).2.1) = p.plain s := by
  induction p generalizing s t with
  | ret value => rfl
  | get next ih => exact ih s h
  | put s' next ih => exact ih h
  | observe place next ih =>
    have hstate : (obs place s t).1 = s := hok place s t h.1
    calc (((observe place next).run obs s t).1, ((observe place next).run obs s t).2.1)
        = next.plain (obs place s t).1 := ih h.2
      _ = (observe place next).plain s := by rw [hstate]; rfl

/-- The observer `obs`, with a flag for whether `check` has held at every place so far. -/
def checking (check : ι → σ → τ → Bool) (obs : ι → σ → τ → σ × τ) :
    ι → σ → τ × Bool → σ × τ × Bool := fun place s t =>
  ((obs place s t.1).1, (obs place s t.1).2, t.2 && check place s t.1)

theorem along_of_checking {check : ι → σ → τ → Bool} {p : Observed σ ι α} {s : σ} {t : τ} {b : Bool}
    (h : (p.run (checking check obs) s (t, b)).2.2.2 = true) :
    b = true ∧ p.Along (fun place s t => check place s t = true) obs s t := by
  induction p generalizing s t b with
  | ret value => exact ⟨h, trivial⟩
  | get next ih => exact ih s h
  | put s' next ih => exact ih h
  | observe place next ih =>
    obtain ⟨hplace, hrest⟩ := ih h
    obtain ⟨hbefore, hcheck⟩ := Bool.and_eq_true_iff.1 hplace
    exact ⟨hbefore, hcheck, hrest⟩

theorem Along.mono {ok' : ι → σ → τ → Prop} (hok : ∀ place s t, ok place s t → ok' place s t)
    {p : Observed σ ι α} {s : σ} {t : τ} (h : p.Along ok obs s t) : p.Along ok' obs s t := by
  induction p generalizing s t with
  | ret value => trivial
  | get next ih => exact ih s h
  | put s' next ih => exact ih h
  | observe place next ih => exact ⟨hok place s t h.1, ih h.2⟩

end Observed

end Nx88.Lib
