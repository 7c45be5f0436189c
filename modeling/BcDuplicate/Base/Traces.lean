import Mathlib.Data.List.Basic

/-!
# Traces

What a left fold does on its way.  `acts s x` is what the step from `s` by `x`
does, and `trace` lists what the steps of a fold do, one after the other.  A
relation between what is done, the state before and the state behind carries
over from the steps to the fold (`foldl_trace`).
-/

namespace Traces

variable {σ α β : Type}

/-- What the steps of a fold do, in order. -/
def trace (step : σ → α → σ) (acts : σ → α → List β) : List α → σ → List β
  | [], _ => []
  | x :: xs, s => acts s x ++ trace step acts xs (step s x)

/-- Steps that do one thing each, what they are given. -/
theorem trace_self (step : σ → α → σ) (xs : List α) (s : σ) :
    trace step (fun _ x => [x]) xs s = xs := by
  induction xs generalizing s with
  | nil => rfl
  | cons x xs ih => rw [trace, ih, List.singleton_append]

/-- **What holds of each step holds of the fold**, when it can be composed. -/
theorem foldl_trace {step : σ → α → σ} {acts : σ → α → List β} {R : List β → σ → σ → Prop}
    (hrefl : ∀ s, R [] s s)
    (htrans : ∀ front back s₁ s₂ s₃, R front s₁ s₂ → R back s₂ s₃ → R (front ++ back) s₁ s₃)
    (hstep : ∀ s x, R (acts s x) s (step s x)) (xs : List α) (s : σ) :
    R (trace step acts xs s) s (xs.foldl step s) := by
  induction xs generalizing s with
  | nil => exact hrefl s
  | cons x xs ih =>
      rw [List.foldl_cons, trace]
      exact htrans _ _ _ _ _ (hstep s x) (ih (step s x))

end Traces
