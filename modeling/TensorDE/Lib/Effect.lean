import Mathlib.Tactic

namespace TensorDE.Effect

/-- How a call can end without a value: a returned error, a panic, or a loop
that never ends. Only the first one hands control back to the caller. -/
inductive Fault (ε : Type) where
  | error (e : ε)
  | panic
  | diverge
deriving DecidableEq

/-- A method on `&mut self`. The state survives a failure, so a partial update
stays visible to the next call. -/
abbrev Op (σ ε α : Type) := EStateM (Fault ε) σ α

variable {σ ε α β ι ρ : Type}

def fail (e : ε) : Op σ ε α := throw (.error e)

def okOr (o : Option α) (e : ε) : Op σ ε α :=
  match o with
  | some a => pure a
  | none => fail e

def expect (o : Option α) : Op σ ε α :=
  match o with
  | some a => pure a
  | none => throw .panic

def checkedAdd (a b : Nat) : Option Nat := if a + b < 2 ^ 64 then some (a + b) else none

/-- `usize` addition and subtraction as written in the source: leaving the range panics. -/
def addUsize (a b : Nat) : Op σ ε Nat := expect (checkedAdd a b)

def subUsize (a b : Nat) : Op σ ε Nat := if b ≤ a then pure (a - b) else throw .panic

/-- `&values[start..stop]`. -/
def slice (values : List α) (start stop : Nat) : Op σ ε (List α) :=
  if start ≤ stop ∧ stop ≤ values.length then pure ((values.drop start).take (stop - start))
  else throw .panic

variable (a : α) (s : σ)

@[simp] theorem pure_run : (pure a : Op σ ε α) s = .ok a s := rfl

@[simp] theorem get_run : (get : Op σ ε σ) s = .ok s s := rfl

@[simp] theorem set_run (s t : σ) : (set t : Op σ ε PUnit) s = .ok ⟨⟩ t := rfl

@[simp] theorem modify_run (f : σ → σ) (s : σ) : (modify f : Op σ ε PUnit) s = .ok ⟨⟩ (f s) := rfl

@[simp] theorem throw_run (e : Fault ε) (s : σ) : (throw e : Op σ ε α) s = .error e s := rfl

variable (e : ε)

@[simp] theorem fail_run : (fail e : Op σ ε α) s = .error (.error e) s := rfl

@[simp] theorem okOr_some : (okOr (some a) e : Op σ ε α) = pure a := rfl

@[simp] theorem okOr_none : (okOr none e : Op σ ε α) = fail e := rfl

@[simp] theorem expect_some : (expect (some a) : Op σ ε α) = pure a := rfl

@[simp] theorem expect_none : (expect none : Op σ ε α) = throw .panic := rfl

@[simp] theorem bind_run (x : Op σ ε α) (f : α → Op σ ε β) (s : σ) :
    (x >>= f) s = match x s with
      | .ok a t => f a t
      | .error e t => .error e t := by
  change EStateM.bind x f s = _
  unfold EStateM.bind
  cases x s <;> rfl

@[simp] theorem map_run (f : α → β) (x : Op σ ε α) (s : σ) :
    (f <$> x) s = match x s with
      | .ok a t => .ok (f a) t
      | .error e t => .error e t := by
  rw [map_eq_pure_bind, bind_run]
  cases x s <;> rfl

variable {x : Op σ ε α} {f : α → Op σ ε β} {s u : σ} {b : β}

theorem bind_eq_ok : (x >>= f) s = .ok b u ↔ ∃ a t, x s = .ok a t ∧ f a t = .ok b u := by
  rw [bind_run]
  cases x s <;> simp

theorem bind_eq_error {e : Fault ε} : (x >>= f) s = .error e u ↔
      x s = .error e u ∨ ∃ a t, x s = .ok a t ∧ f a t = .error e u := by
  rw [bind_run]
  cases x s <;> simp

/-- Started in a state with `P` the call neither panics nor runs for ever, and
a returned value comes with `Q`. Returned errors are left open. -/
def Triple (P : σ → Prop) (x : Op σ ε α) (Q : α → σ → Prop) : Prop :=
  ∀ s, P s → match x s with
    | .ok a t => Q a t
    | .error (.error _) _ => True
    | .error _ _ => False

section Triple

variable {P P' : σ → Prop} {Q Q' : α → σ → Prop} {R : β → σ → Prop} {x : Op σ ε α} {f : α → Op σ ε β}

theorem Triple.bind (hx : Triple P x Q) (hf : ∀ a, Triple (Q a) (f a) R) : Triple P (x >>= f) R := by
  intro s hs
  have h := hx s hs
  rw [bind_run]
  cases hr : x s with
  | ok a t =>
    rw [hr] at h
    exact hf a t h
  | error e t =>
    rw [hr] at h
    cases e <;> exact h

theorem Triple.pure {a : α} (h : ∀ s, P s → Q a s) : Triple P (pure a : Op σ ε α) Q := h

variable {e : ε}

theorem Triple.fail : Triple P (fail e : Op σ ε α) Q := fun _ _ => trivial

theorem Triple.set {Q : PUnit → σ → Prop} {t : σ} (h : ∀ s, P s → Q ⟨⟩ t) :
    Triple P (set t : Op σ ε PUnit) Q := h

theorem Triple.weaken (hx : Triple P x Q) (hP : ∀ s, P' s → P s) (hQ : ∀ a s, Q a s → Q' a s) : Triple P' x Q' := by
  intro s hs
  have h := hx s (hP s hs)
  grind

theorem Triple.map {g : α → β} (hx : Triple P x Q) (h : ∀ a s, Q a s → R (g a) s) : Triple P (g <$> x) R := by
  exact hx.bind fun a => Triple.pure (h a)

theorem Triple.ite {c : Prop} [Decidable c] {y : Op σ ε α} (hx : Triple (fun s => P s ∧ c) x Q)
    (hy : Triple (fun s => P s ∧ ¬ c) y Q) : Triple P (if c then x else y) Q := by
  intro s hs
  by_cases h : c
  · rw [if_pos h]
    exact hx s ⟨hs, h⟩
  · rw [if_neg h]
    exact hy s ⟨hs, h⟩

theorem Triple.run (hx : Triple P x Q) {s : σ} (hs : P s) :
    (∃ a t, x s = .ok a t ∧ Q a t) ∨ ∃ e t, x s = .error (.error e) t := by
  have h := hx s hs
  grind

theorem Triple.okOr {o : Option α} (h : ∀ a, o = some a → ∀ s, P s → Q a s) : Triple P (okOr o e : Op σ ε α) Q := by
  cases o with
  | none => exact Triple.fail
  | some a => exact Triple.pure (h a rfl)

end Triple

/-- The call comes back, with `P` for a value and `Q` for an error. -/
def Returns (P : α → σ → Prop) (Q : ε → σ → Prop) : EStateM.Result (Fault ε) σ α → Prop
  | .ok a t => P a t
  | .error (.error e) t => Q e t
  | .error _ _ => False

section Returns

variable {P P' : α → σ → Prop} {Q Q' : ε → σ → Prop} {R : β → σ → Prop} {x : Op σ ε α} {f : α → Op σ ε β} {s : σ}

theorem Returns.mono {r : EStateM.Result (Fault ε) σ α} (h : Returns P Q r) (hP : ∀ a t, P a t → P' a t)
    (hQ : ∀ e t, Q e t → Q' e t) : Returns P' Q' r := by
  cases r with
  | ok a t => exact hP a t h
  | error e t =>
    cases e with
    | error e => exact hQ e t h
    | panic | diverge => exact h.elim

theorem Returns.bind (hx : Returns P Q (x s)) (hf : ∀ a t, P a t → Returns R Q (f a t)) :
    Returns R Q ((x >>= f) s) := by
  rw [bind_run]
  cases hr : x s with
  | ok a t =>
    rw [hr] at hx
    exact hf a t hx
  | error e t =>
    rw [hr] at hx
    cases e <;> exact hx

variable {a : α} {t : σ}

theorem Returns.step {P : β → σ → Prop} (hx : x s = .ok a t) (h : Returns P Q (f a t)) : Returns P Q ((x >>= f) s) := by
  rw [bind_run, hx]
  exact h

theorem Returns.pure (h : P a s) : Returns P Q ((pure a : Op σ ε α) s) := h

variable {e : ε}

theorem Returns.fail (h : Q e s) : Returns P Q ((fail e : Op σ ε α) s) := h

theorem Returns.ite {c : Prop} [Decidable c] {y : Op σ ε α} (hx : c → Returns P Q (x s))
    (hy : ¬c → Returns P Q (y s)) : Returns P Q ((if c then x else y) s) := by
  grind

section

variable (h : Returns P Q (x s))
include h

theorem Returns.of_ok (hr : x s = .ok a t) : P a t := by
  rwa [hr] at h

theorem Returns.of_error (hr : x s = .error (.error e) t) : Q e t := by
  rwa [hr] at h

theorem Returns.cases : (∃ a t, x s = .ok a t ∧ P a t) ∨ ∃ e t, x s = .error (.error e) t ∧ Q e t := by
  cases hr : x s with
  | ok a t => exact .inl ⟨a, t, rfl, h.of_ok hr⟩
  | error e t =>
    rw [hr] at h
    cases e with
    | error e => exact .inr ⟨e, t, rfl, h⟩
    | panic | diverge => exact h.elim

end

end Returns

theorem except_bind_eq_ok {x : Except ε α} {f : α → Except ε β} : (x >>= f) = .ok b ↔ ∃ a, x = .ok a ∧ f a = .ok b := by
  cases x <;> simp [bind, Except.bind]

variable {P : σ → Prop}

theorem foldlM_related {step : σ → α → Except ε σ} {R : List α → σ → σ → Prop}
    (hnil : ∀ s, P s → R [] s s) {xs : List α}
    (hcons : ∀ s x, P s → x ∈ xs → ∃ t, step s x = .ok t ∧ P t ∧ ∀ rest u, R rest t u → R (x :: rest) s u) (hs : P s) : ∃ u, xs.foldlM step s = .ok u ∧ P u ∧ R xs s u := by
  induction xs generalizing s with
  | nil => exact ⟨s, rfl, hs, hnil s hs⟩
  | cons x rest ih =>
    obtain ⟨t, hstep, ht, hR⟩ := hcons s x hs List.mem_cons_self
    obtain ⟨u, hfold, hu, hrest⟩ := ih (fun s y hs hy => hcons s y hs (List.mem_cons_of_mem _ hy)) ht
    refine ⟨u, ?_, hu, hR rest u hrest⟩
    rw [List.foldlM_cons, hstep]
    exact hfold

theorem except_ok_bind (f : α → Except ε β) : (Except.ok a >>= f) = f a := rfl

/-- A computation without state comes back, with `P` for a value. -/
def Ends (P : α → Prop) : Except (Fault ε) α → Prop
  | .ok a => P a
  | .error (.error _) => True
  | .error _ => False

section Ends

variable {P P' : α → Prop} {R : β → Prop} {x : Except (Fault ε) α} {f : α → Except (Fault ε) β}

theorem Ends.mono (h : Ends P x) (hP : ∀ a, P a → P' a) : Ends P' x := by
  cases x with
  | ok a => exact hP a h
  | error e =>
    cases e with
    | error e => trivial
    | panic | diverge => exact h.elim

theorem Ends.bind (hx : Ends P x) (hf : ∀ a, P a → Ends R (f a)) : Ends R (x >>= f) := by
  cases x with
  | ok a => exact hf a hx
  | error e => cases e <;> exact hx

theorem Ends.of_ok {a : α} (h : Ends P x) (hr : x = .ok a) : P a := by
  rwa [hr] at h

end Ends

/-- A call from `s` has ended well for `P`: a value comes with a state that has
`P`, an error comes with the state as it was, and the call does not run for ever. -/
def Settled (P : σ → Prop) (s : σ) : EStateM.Result (Fault ε) σ α → Prop
  | .ok _ t => P t
  | .error (.error _) t => t = s
  | .error .panic _ => True
  | .error .diverge _ => False

def Safe (P : σ → Prop) (x : Op σ ε α) : Prop := ∀ s, P s → Settled P s (x s)

theorem Safe.map (h : Safe P x) (f : α → β) : Safe P (f <$> x) := by
  intro s hs
  have hx := h s hs
  rw [map_run]
  cases hr : x s with
  | ok a t => rwa [hr] at hx
  | error e t =>
    rw [hr] at hx
    cases e <;> exact hx

/-- The states a caller can see: each command either returns a value or returns
an error, and the next command starts from the state it left. -/
inductive Reachable (exec : ι → Op σ ε ρ) (init : σ) : σ → Prop where
  | init : Reachable exec init init
  | ok {s t : σ} {c : ι} {r : ρ} : Reachable exec init s → exec c s = .ok r t → Reachable exec init t
  | error {s t : σ} {c : ι} {e : ε} :
      Reachable exec init s → exec c s = .error (.error e) t → Reachable exec init t

theorem Reachable.invariant {exec : ι → Op σ ε ρ} {init : σ} (h0 : P init)
    (hsafe : ∀ c, Safe P (exec c)) (h : Reachable exec init s) : P s := by
  induction h with
  | init => exact h0
  | @ok s t c r _ hx ih =>
    have h := hsafe c s ih
    rwa [hx] at h
  | @error s t c e _ hx ih =>
    have h := hsafe c s ih
    rw [hx] at h
    exact h ▸ ih

end TensorDE.Effect
