import Mathlib.Tactic

namespace TensorDE.Trace

variable {σ ε : Type} {step : σ → ε → σ → Prop}

/-- The runs of a system whose steps carry an event: the events in order, from one state to another. -/
inductive Run (step : σ → ε → σ → Prop) : σ → List ε → σ → Prop where
  | nil (s : σ) : Run step s [] s
  | cons {s t u : σ} {e : ε} {es : List ε} : step s e t → Run step t es u → Run step s (e :: es) u

namespace Run

variable {s t u : σ} {e : ε} {es : List ε}

theorem append {fs : List ε} (h : Run step s es t) (h' : Run step t fs u) : Run step s (es ++ fs) u := by
  induction h with
  | nil s => exact h'
  | cons hs _ ih => exact .cons hs (ih h')

theorem snoc (h : Run step s es t) (hs : step t e u) : Run step s (es ++ [e]) u :=
  h.append (.cons hs (.nil u))

theorem invariant {P : σ → Prop} {Q : ε → Prop} (hstep : ∀ s e t, P s → Q e → step s e t → P t)
    (h : Run step s es t) (hs : P s) (hes : ∀ e ∈ es, Q e) : P t := by
  induction h with
  | nil s => exact hs
  | cons hse _ ih => grind

end Run

end TensorDE.Trace
