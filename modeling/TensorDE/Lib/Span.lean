import Mathlib.Tactic

namespace TensorDE

/-- A stretch of a line: the points from `start` up to, but not including, `start + length`. -/
structure Span where
  start : Int
  length : Nat
deriving DecidableEq, Repr

namespace Span

variable {s t u : Span}

def stop (s : Span) : Int := s.start + s.length

def Inside (s t : Span) : Prop := t.start ≤ s.start ∧ s.stop ≤ t.stop

/-- The two have a point in common. -/
def Overlaps (s t : Span) : Prop := max s.start t.start < min s.stop t.stop

instance (s t : Span) : Decidable (s.Inside t) := inferInstanceAs (Decidable (_ ∧ _))

instance (s t : Span) : Decidable (s.Overlaps t) := inferInstanceAs (Decidable (_ < _))

theorem overlaps_iff : s.Overlaps t ↔ s.start < t.stop ∧ t.start < s.stop ∧ 0 < s.length ∧ 0 < t.length := by
  simp only [Overlaps, stop]
  omega

end Span

end TensorDE
