import TensorDE.Lib.Effect
import TensorDE.Lib.Codec

/-! Readers that take bytes off the front of their input: a value is read from exactly the bytes that `R` gives it. -/

namespace TensorDE

open Effect Codec List

variable {ε α β : Type}

/-- What the reader takes decides its value and its value decides what it took; a failure is a returned error. -/
structure Consumes (m : Op Bytes ε α) (R : α → Bytes → Prop) : Prop where
  ok : ∀ s a t, m s = .ok a t ↔ ∃ used, s = used ++ t ∧ R a used
  safe : ∀ s f t, m s = .error f t → ∃ e, f = .error e

namespace Consumes

theorem pure (a : α) : Consumes (pure a : Op Bytes ε α) fun b used => b = a ∧ used = [] where
  ok := by
    intro s b t
    rw [pure_run]
    grind
  safe := by
    intro s f t h
    cases h

theorem fail (e : ε) : Consumes (Effect.fail e : Op Bytes ε α) fun _ _ => False where
  ok := by
    simp
  safe := by
    grind [fail_run]

variable {m : Op Bytes ε α} {R : α → Bytes → Prop}

theorem bind {f : α → Op Bytes ε β} {R' : α → β → Bytes → Prop} (hm : Consumes m R)
    (hf : ∀ a, Consumes (f a) (R' a)) :
    Consumes (m >>= f) fun b used => ∃ a first rest, used = first ++ rest ∧ R a first ∧ R' a b rest where
  ok := by
    intro s b t
    rw [bind_eq_ok]
    constructor
    · grind +splitImp +splitIndPred
    · rintro ⟨used, hs, a, first, rest, rfl, hR, hR'⟩
      exact ⟨a, rest ++ t, (hm.ok s a _).mpr ⟨first, by rw [hs, append_assoc], hR⟩,
        ((hf a).ok _ b t).mpr ⟨rest, rfl, hR'⟩⟩
  safe := by
    intro s e t h
    rcases bind_eq_error.mp h with h | ⟨a, u, -, h⟩
    · exact hm.safe s e t h
    · exact (hf a).safe u e t h

variable {R' : α → Bytes → Prop}

theorem congr (h : Consumes m R) (hR : ∀ a used, R a used ↔ R' a used) : Consumes m R' :=
  ⟨fun s a t => by simp only [h.ok, hR], h.safe⟩

theorem ite {c : Prop} [Decidable c] {m m' : Op Bytes ε α} (hm : Consumes m R) (hm' : Consumes m' R') :
    Consumes (if c then m else m') fun a used => if c then R a used else R' a used := by
  by_cases hc : c
  · simp only [hc]
    exact hm
  · simp only [hc]
    exact hm'

end Consumes

/-- `slice.split_at(len)`. -/
def splitAt (len : Nat) : Op Bytes ε Bytes := fun s =>
  if len ≤ s.length then .ok (s.take len) (s.drop len) else .error .panic s

/-- A checked `split_at`. -/
theorem consumes_splitAt {len : Nat} {e : ε} :
    Consumes (do
        let input ← get
        if input.length < len then Effect.fail e else splitAt len)
      fun value used => used = value ∧ value.length = len where
  ok := by
    intro s a t
    rw [bind_run, get_run]
    grind [fail_run, splitAt, take_append_drop]
  safe := by
    intro s f t hr
    rw [bind_run, get_run] at hr
    grind [fail_run, splitAt]

/-- `count` values one after the other. -/
def repeated (m : Op Bytes ε α) : Nat → Op Bytes ε (List α)
  | 0 => pure []
  | count + 1 => do
    let first ← m
    let rest ← repeated m count
    pure (first :: rest)

theorem consumes_repeated {m : Op Bytes ε α} {put : α → Bytes} {P : α → Prop}
    (h : Consumes m fun a used => used = put a ∧ P a) (count : Nat) : Consumes (repeated m count) fun values used =>
      used = values.flatMap put ∧ values.length = count ∧ ∀ a ∈ values, P a := by
  induction count with
  | zero =>
    refine (Consumes.pure []).congr fun values used => ?_
    grind
  | succ count ih =>
    refine (h.bind fun first => ih.bind fun rest => Consumes.pure (first :: rest)).congr fun values used => ?_
    constructor
    · grind
    · rintro ⟨rfl, hlength, hall⟩
      obtain ⟨a, rest, rfl⟩ := exists_cons_of_length_eq_add_one hlength
      rw [forall_mem_cons] at hall
      exact ⟨a, put a, rest.flatMap put, flatMap_cons, ⟨rfl, hall.1⟩, rest, rest.flatMap put, [], by simp,
        ⟨rfl, by simpa using hlength, hall.2⟩, rfl, rfl⟩

end TensorDE
