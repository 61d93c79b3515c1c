import TensorDE.Lib.Effect

namespace TensorDE.Effect

variable {σ ε α β γ : Type}

/-- One round of a loop: go round again, or leave with a result. -/
inductive Round (α β : Type) where
  | again (a : α)
  | done (b : β)

def loop (round : α → Op σ ε (Round α β)) : Nat → α → Op σ ε β
  | 0, _ => throw .diverge
  | rounds + 1, a => do
    match ← round a with
    | .again a => loop round rounds a
    | .done b => pure b

/-- What a round leaves behind: more to do with `P`, or a result with `Q`. -/
def Round.Meets (P : α → σ → Prop) (Q : β → σ → Prop) : Round α β → σ → Prop
  | .again a, t => P a t
  | .done b, t => Q b t

variable {round : α → Op σ ε (Round α β)} {E : ε → σ → Prop} {rounds : Nat} {a : α} {s : σ}

theorem loop_returns {P : α → σ → Prop} {Q : β → σ → Prop} (left : α → σ → Nat) (hround : ∀ a s, P a s →
      Returns (Round.Meets (fun a' t => P a' t ∧ left a' t < left a s) Q) E (round a s)) (h : P a s) (hleft : left a s < rounds) : Returns Q E (loop round rounds a s) := by
  induction rounds generalizing a s with
  | zero => omega
  | succ rounds ih =>
    refine (hround a s h).bind fun r t hr => ?_
    cases r with
    | again a' => exact ih hr.1 (by have := hr.2; omega)
    | done b => exact hr

/-- A returned value comes with `P`; nothing is said of a call that fails. -/
def Yields (P : α → Prop) : EStateM.Result (Fault ε) σ α → Prop
  | .ok a _ => P a
  | .error _ _ => True

variable {x : Op σ ε α} {f : α → Op σ ε β} {P : α → Prop} {Q : β → Prop}

theorem Yields.bind (hx : Yields P (x s)) (hf : ∀ a t, P a → Yields Q (f a t)) : Yields Q ((x >>= f) s) := by
  rw [bind_run]
  cases hr : x s with
  | ok a t =>
    rw [hr] at hx
    exact hf a t hx
  | error e t => trivial

theorem Yields.then (hf : ∀ a t, Yields Q (f a t)) : Yields Q ((x >>= f) s) := by
  refine Yields.bind (P := fun _ => True) ?_ fun a t _ => hf a t
  cases x s <;> trivial

theorem Yields.step {s t : σ} (hx : x s = .ok a t) (hf : Yields Q (f a t)) : Yields Q ((x >>= f) s) := by
  rwa [bind_run, hx]

theorem Yields.mono {P Q : α → Prop} {r : EStateM.Result (Fault ε) σ α} (h : Yields P r) (hPQ : ∀ a, P a → Q a) :
    Yields Q r := by
  cases r with
  | ok a t => exact hPQ a h
  | error e t => trivial

def Round.All (P : α → Prop) (Q : β → Prop) : Round α β → Prop
  | .again a => P a
  | .done b => Q b

/-- Two rounds that both go on or both leave. -/
def Round.Rel {α' β' : Type} (P : α → α' → Prop) (Q : β → β' → Prop) : Round α β → Round α' β' → Prop
  | .again a, .again a' => P a a'
  | .done b, .done b' => Q b b'
  | _, _ => False

theorem Round.All.mono {P P' : α → Prop} {Q Q' : β → Prop} {r : Round α β} (h : r.All P Q) (hP : ∀ a, P a → P' a)
    (hQ : ∀ b, Q b → Q' b) : r.All P' Q' := by
  cases r with
  | again a => exact hP a h
  | done b => exact hQ b h

theorem loop_yields (hround : ∀ a s, P a → Yields (Round.All P Q) (round a s)) (h : P a) :
    Yields Q (loop round rounds a s) := by
  induction rounds generalizing a s with
  | zero => trivial
  | succ rounds ih =>
    refine (hround a s h).bind fun r t hr => ?_
    cases r with
    | again a' => exact ih hr
    | done b => exact hr

/-- Run `x`, then `last` on the state it left, whether it returned a value or an error. -/
def always (x : Op σ ε α) (last : σ → σ) : Op σ ε α := fun s =>
  match x s with
  | .ok a t => .ok a (last t)
  | .error (.error e) t => .error (.error e) (last t)
  | .error e t => .error e t

variable {last : σ → σ}

theorem Returns.always {P : α → σ → Prop}
    (h : Returns (fun a t => P a (last t)) (fun e t => E e (last t)) (x s)) : Returns P E (always x last s) := by
  unfold Effect.always
  cases hx : x s with
  | ok a t => rwa [hx] at h
  | error e t =>
    rw [hx] at h
    cases e <;> exact h

theorem Yields.always (h : Yields P (x s)) : Yields P (always x last s) := by
  unfold Effect.always
  cases hx : x s with
  | ok a t => rwa [hx] at h
  | error e t => cases e <;> trivial

/-- Pass a returned error through `f`. -/
def mapError (f : ε → ε) (x : Op σ ε α) : Op σ ε α := fun s =>
  match x s with
  | .error (.error e) t => .error (.error (f e)) t
  | r => r

theorem mapError_id (x : Op σ ε α) : mapError id x = x := by
  funext s
  grind [mapError]

theorem Returns.mapError {f : ε → ε} {P : α → σ → Prop}
    (h : Returns P (fun e t => E (f e) t) (x s)) : Returns P E (mapError f x s) := by
  unfold Effect.mapError
  cases hx : x s with
  | ok a t => rwa [hx] at h
  | error e t =>
    rw [hx] at h
    cases e <;> exact h

end TensorDE.Effect
