import Mathlib.Tactic

/-! Frames that follow one another on a stream, read as its bytes arrive. -/

namespace TensorDE

/-- What stands at the front of the symbols read so far. -/
inductive Next (ρ ε : Type) where
  | need
  | bad (e : ε)
  | frame (size : Nat) (value : ρ)

/-- A frame has symbols, and neither it nor a bad start changes with what comes after. -/
structure Framing (τ ρ ε : Type) where
  next : List τ → Next ρ ε
  frame_size : ∀ {s size v}, next s = .frame size v → 0 < size ∧ size ≤ s.length
  frame_append : ∀ {s size v} more, next s = .frame size v → next (s ++ more) = .frame size v
  bad_append : ∀ {s e} more, next s = .bad e → next (s ++ more) = .bad e

namespace Framing

variable {τ ρ ε : Type} {f : Framing τ ρ ε} {s rest more : List τ} {size : Nat} {v : ρ} {e : ε}

/-- The frames in front, and what stops the reader: symbols it needs more of, or a bad start. -/
def scan (f : Framing τ ρ ε) (s : List τ) : List ρ × Except ε (List τ) :=
  match _h : f.next s with
  | .need => ([], .ok s)
  | .bad e => ([], .error e)
  | .frame size v =>
    let r := f.scan (s.drop size)
    (v :: r.1, r.2)
termination_by s.length
decreasing_by
  have hsize := f.frame_size _h
  rw [List.length_drop]
  omega

theorem scan_need (h : f.next s = .need) : f.scan s = ([], .ok s) := by
  rw [scan]
  split <;> simp_all

theorem scan_bad (h : f.next s = .bad e) : f.scan s = ([], .error e) := by
  rw [scan]
  split <;> simp_all

theorem scan_frame (h : f.next s = .frame size v) :
    f.scan s = (v :: (f.scan (s.drop size)).1, (f.scan (s.drop size)).2) := by
  rw [scan]
  split <;> simp_all

/-- Where more symbols arrive, the reader goes on from what it kept. -/
theorem scan_append (h : (f.scan s).2 = .ok rest) (more : List τ) :
    f.scan (s ++ more) = ((f.scan s).1 ++ (f.scan (rest ++ more)).1, (f.scan (rest ++ more)).2) := by
  induction s using scan.induct f with
  | case1 s hnext =>
    rw [scan_need hnext] at h ⊢
    cases h
    rfl
  | case2 s e hnext =>
    rw [scan_bad hnext] at h
    cases h
  | case3 s size v hnext ih =>
    have hle := (f.frame_size hnext).2
    grind [f.frame_append, scan]

end Framing

end TensorDE
