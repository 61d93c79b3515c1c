import TensorDE.Lib.Loop

/-! Calls that decide a relation: a value is returned exactly where `R` has one, and every other end is a returned
error. -/

namespace TensorDE.Effect

variable {σ ε α β : Type}

structure Exact (R : α → σ → Prop) (r : EStateM.Result (Fault ε) σ α) : Prop where
  ok : ∀ a t, r = .ok a t ↔ R a t
  safe : ∀ f t, r = .error f t → ∃ e, f = .error e

namespace Exact

variable {R S : α → σ → Prop} {x : Op σ ε α} {f : α → Op σ ε β} {s t : σ} {a : α}

theorem congr {r : EStateM.Result (Fault ε) σ α} (h : Exact R r) (hRS : ∀ a t, R a t ↔ S a t) : Exact S r where
  ok := fun a t => (h.ok a t).trans (hRS a t)
  safe := h.safe

theorem ofOk (hx : x s = .ok a t) : Exact (fun b u => b = a ∧ u = t) (x s) where
  ok := by
    grind
  safe := by
    intro f u h
    rw [hx] at h
    cases h

theorem pure (a : α) (s : σ) : Exact (fun b u => b = a ∧ u = s) ((pure a : Op σ ε α) s) :=
  ofOk rfl

theorem fail (e : ε) (s : σ) : Exact (fun (_ : α) _ => False) ((fail e : Op σ ε α) s) where
  ok := by simp
  safe := by
    grind [fail_run]

variable {T : α → σ → β → σ → Prop}

theorem bind (hx : Exact R (x s)) (hf : ∀ a t, R a t → Exact (T a t) (f a t)) :
    Exact (fun b u => ∃ a t, R a t ∧ T a t b u) ((x >>= f) s) where
  ok := by
    grind +splitImp +splitIndPred [bind_eq_ok]
  safe := by
    intro e u h
    rcases bind_eq_error.mp h with h | ⟨a, t, hr, h⟩
    · exact hx.safe e u h
    · exact (hf a t ((hx.ok a t).mp hr)).safe e u h

theorem step {T : β → σ → Prop} (hx : x s = .ok a t) (h : Exact T (f a t)) : Exact T ((x >>= f) s) := by
  rwa [bind_run, hx]

theorem okOr (o : Option α) (e : ε) (s : σ) : Exact (fun a t => o = some a ∧ t = s) ((okOr o e : Op σ ε α) s) := by
  cases o with
  | none => exact (fail e s).congr (by simp)
  | some b => exact (pure b s).congr (by simp [eq_comm])

theorem ite {c : Prop} [Decidable c] {y : Op σ ε α} (hx : c → Exact R (x s)) (hy : ¬c → Exact S (y s)) :
    Exact (fun a t => (c ∧ R a t) ∨ (¬c ∧ S a t)) ((if c then x else y) s) := by
  by_cases h : c
  · rw [if_pos h]
    exact (hx h).congr (by simp [h])
  · rw [if_neg h]
    exact (hy h).congr (by simp [h])

/-- A loop decides what its rounds add up to, when every further round has less left to do. -/
theorem loop {round : α → Op σ ε (Round α β)} {P : α → σ → Prop}
    {S : α → σ → Round α β → σ → Prop} (left : α → σ → Nat) (hround : ∀ a s, P a s → Exact (S a s) (round a s))
    (hagain : ∀ a s, P a s → ∀ b t, S a s (.again b) t → P b t ∧ left b t < left a s)
    (hT : ∀ a s, P a s → ∀ b u, T a s b u ↔ S a s (.done b) u ∨ ∃ a' t, S a s (.again a') t ∧ T a' t b u)
    {rounds : Nat} (h : P a s) (hleft : left a s < rounds) : Exact (T a s) (Effect.loop round rounds a s) := by
  induction rounds generalizing a s with
  | zero => omega
  | succ rounds ih =>
    rw [Effect.loop]
    refine ((hround a s h).bind (T := fun r t b u => (∃ a', r = .again a' ∧ T a' t b u) ∨ (r = .done b ∧ u = t))
      fun r t hr => ?_).congr fun b u => ?_
    · cases r with
      | again a' =>
        have hnext := hagain a s h a' t hr
        exact (ih hnext.1 (by omega)).congr fun b u => by simp
      | done b => exact (pure b t).congr fun b' u => by simp [eq_comm]
    · rw [hT a s h b u]
      constructor
      · rintro ⟨r, t, hr, ⟨a', rfl, hrest⟩ | ⟨rfl, rfl⟩⟩
        · exact .inr ⟨a', t, hr, hrest⟩
        · exact .inl hr
      · rintro (hdone | ⟨a', t, hr, hrest⟩)
        · exact ⟨.done b, u, hdone, .inr ⟨rfl, rfl⟩⟩
        · exact ⟨.again a', t, hr, .inl ⟨a', rfl, hrest⟩⟩

end Exact

end TensorDE.Effect
