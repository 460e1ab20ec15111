import Mathlib.Data.List.Infix
import Mathlib.Data.List.Basic

/-!
# Lib/Run — finite runs of a labelled step relation

A system is a relation `step : σ → α → σ → Prop`; a `Run` performs a list of labels.  Safety is
proved once per step and carried along a run (`Run.invariant`), also along the runs that stay inside
a side condition on each step (`guarded`).
-/

variable {σ α : Type*}

/-- **A finite run**: the labels performed in order, and the states at its two ends. -/
inductive Run (step : σ → α → σ → Prop) : σ → List α → σ → Prop
  | nil (s : σ) : Run step s [] s
  | cons {s t u : σ} {a : α} {as : List α} (h : step s a t) (rest : Run step t as u) :
      Run step s (a :: as) u

namespace Run

variable {step step' : σ → α → σ → Prop} {s t u : σ} {a : α} {as bs : List α}

theorem single (h : step s a t) : Run step s [a] t := cons h (nil t)

theorem append (h₁ : Run step s as t) (h₂ : Run step t bs u) : Run step s (as ++ bs) u := by
  induction h₁ with
  | nil => exact h₂
  | cons h _ ih => exact cons h (ih h₂)

theorem mono (h : ∀ s a t, step s a t → step' s a t) (r : Run step s as t) :
    Run step' s as t := by
  induction r with
  | nil => exact nil _
  | cons hs _ ih => exact cons (h _ _ _ hs) ih

/-- **Invariants are carried along runs** — one step preserves, hence every run does. -/
theorem invariant {I : σ → Prop} (hstep : ∀ s a t, I s → step s a t → I t)
    (r : Run step s as t) (hs : I s) : I t := by
  induction r with
  | nil => exact hs
  | cons h _ ih => exact ih (hstep _ _ _ hs h)

/-- **Invariants that look back** — an invariant that speaks of the labels performed so far holds
after every run if a step keeps it. -/
theorem history {I : List α → σ → Prop} {s₀ : σ}
    (hstep : ∀ as s a t, Run step s₀ as s → I as s → step s a t → I (as ++ [a]) t)
    (before : Run step s₀ bs s) (hs : I bs s) (r : Run step s as t) : I (bs ++ as) t := by
  induction r generalizing bs with
  | nil => rwa [List.append_nil]
  | @cons _ t _ a as h _ ih =>
    have hnext := ih (before.append (single h)) (hstep _ _ _ _ before hs h)
    rwa [List.append_assoc, List.singleton_append] at hnext

end Run

/-- The steps of a system that are taken where the side condition `ok` holds. -/
def guarded (ok : σ → α → Prop) (step : σ → α → σ → Prop) : σ → α → σ → Prop :=
  fun s a t => ok s a ∧ step s a t
