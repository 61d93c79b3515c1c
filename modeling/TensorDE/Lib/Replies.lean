import TensorDE.Lib.Effect

namespace TensorDE.Replies

open Effect List

variable {τ ε α β : Type}

/-- Where the symbols stand in front of the queue, the reader takes exactly them
and gives the value if they are usable; if not, it fails there. -/
structure Takes (m : Op (List τ) ε α) (symbols : List τ) (usable : Prop) (a : α) : Prop where
  ok : usable → ∀ rest, m (symbols ++ rest) = .ok a rest
  error : ¬usable → ∀ rest, ∃ e t, m (symbols ++ rest) = .error (.error e) t

section Takes

variable {m : Op (List τ) ε α} {f : α → Op (List τ) ε β} {symbols more : List τ} {usable further : Prop} {a : α} {b : β}

theorem Takes.pure (a : α) : Takes (pure a : Op (List τ) ε α) [] True a :=
  ⟨fun _ _ => rfl, fun h => absurd trivial h⟩

theorem Takes.fail (e : ε) (h : ¬usable) : Takes (fail e : Op (List τ) ε α) symbols usable a :=
  ⟨fun hc => absurd hc h, fun _ _ => ⟨e, _, rfl⟩⟩

section

variable (h : Takes m symbols usable a)
include h

theorem Takes.bind (hf : Takes (f a) more further b) :
    Takes (m >>= f) (symbols ++ more) (usable ∧ further) b where
  ok hc rest := by
    rw [bind_run, append_assoc, h.ok hc.1]
    exact hf.ok hc.2 rest
  error hc rest := by
    rw [bind_run, append_assoc]
    by_cases hu : usable
    · rw [h.ok hu]
      exact hf.error (fun hmore => hc ⟨hu, hmore⟩) rest
    · obtain ⟨e, t, hrun⟩ := h.error hu (more ++ rest)
      exact ⟨e, t, by rw [hrun]⟩

theorem Takes.congr (hiff : further ↔ usable) : Takes m symbols further a :=
  ⟨fun hc => h.ok (hiff.mp hc), fun hc => h.error (fun hu => hc (hiff.mpr hu))⟩

theorem Takes.map (g : α → β) : Takes (m >>= fun x => Pure.pure (g x)) symbols usable (g a) := by
  rw [← append_nil symbols]
  exact (h.bind (Takes.pure (g a))).congr ⟨fun hu => ⟨hu, trivial⟩, And.left⟩

end

end Takes

def ofExcept : Except ε α → Op (List τ) ε α
  | .ok a => pure a
  | .error e => fail e

variable {x : Except ε α} {f : α → Op (List τ) ε β} {symbols : List τ} {usable : Prop} {b : β}

theorem Takes.except_ok {a : α}
    (hx : x = .ok a) (h : Takes (f a) symbols usable b) : Takes (ofExcept x >>= f) symbols usable b := by
  subst hx
  exact h

theorem Takes.except_error {e : ε} (hx : x = .error e) (h : ¬usable) : Takes (ofExcept x >>= f) symbols usable b := by
  subst hx
  exact Takes.fail e h

def readExact (short : ε) (len : Nat) : Op (List τ) ε (List τ) := do
  let unread ← get
  if len ≤ unread.length then do
    set (unread.drop len)
    pure (unread.take len)
  else fail short

variable {len : Nat}

theorem takes_readExact (short : ε) (hlen : symbols.length = len) :
    Takes (readExact short len) symbols True symbols := by
  refine ⟨fun _ rest => ?_, fun h => absurd trivial h⟩
  subst hlen
  have hle : symbols.length ≤ (symbols ++ rest).length := by
    rw [length_append]
    omega
  rw [readExact, bind_run, get_run]
  simp only [if_pos hle, bind_run, set_run, pure_run, take_left, drop_left]

theorem Takes.block {short : ε} {symbols more : List τ} {f : List τ → Op (List τ) ε β}
    (hlen : symbols.length = len) (h : Takes (f symbols) more usable b) :
    Takes (readExact short len >>= f) (symbols ++ more) usable b :=
  ((takes_readExact short hlen).bind h).congr ⟨fun hu => ⟨trivial, hu⟩, And.right⟩

end TensorDE.Replies
