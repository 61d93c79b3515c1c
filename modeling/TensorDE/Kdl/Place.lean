import TensorDE.Kdl.Lexer

set_option linter.dupNamespace false

namespace TensorDE.Kdl

open Effect Utf8 List

variable {src : Source} {i j : Nat} {rest : Str} {c : Char} {α β : Type}

/-- The index is on a character boundary of the text, with `rest` ahead. -/
def At (src : Source) (i : Nat) (rest : Str) : Prop := suffixAt src.input i = some rest

def OnBoundary (src : Source) (i : Nat) : Prop := ∃ rest, At src i rest

theorem At.size_eq (h : At src i rest) : i + size rest = src.logicalEnd := suffixAt_lt h

theorem At.le (h : At src i rest) : i ≤ src.logicalEnd := by
  have := h.size_eq
  omega

theorem OnBoundary.le (h : OnBoundary src i) : i ≤ src.logicalEnd := h.elim fun _ h => h.le

theorem At.boundary (h : At src i rest) : OnBoundary src i := ⟨rest, h⟩

theorem At.append (pre : Str) (h : At src i (pre ++ rest)) : At src (i + size pre) rest := by
  rw [At, suffixAt_add h, suffixAt_append]

theorem At.tail (h : At src i (c :: rest)) : At src (i + c.utf8Size) rest := by
  simpa using h.append [c]

theorem At.start (src : Source) : At src 0 src.input := suffixAt_zero _

theorem At.drop (h : At src i rest) : (encode src.input).drop i = encode rest := by
  obtain ⟨pre, hinput, hsize⟩ := suffixAt_eq_some.mp h
  rw [hinput, encode_append, ← hsize, size, drop_left]

theorem At.bytes_split (h : At src i rest) :
    ∃ pre : Bytes, pre.length = i ∧ src.bytes = pre ++ encode rest ++ replicate src.padding 0 := by
  obtain ⟨pre, hinput, hsize⟩ := suffixAt_eq_some.mp h
  exact ⟨encode pre, hsize, by rw [Source.bytes, hinput, encode_append]⟩

theorem At.getElem?_bytes (h : At src i rest) (k : Nat) :
    src.bytes[i + k]? = (encode rest ++ replicate src.padding 0)[k]? := by
  grind [h.bytes_split]

/-- Where the text ahead has an ASCII byte it has that character. -/
theorem head?_encode {b : UInt8} (hb : b.toNat < 128) :
    (encode rest).head? = some b ↔ rest.head? = some (Char.ofNat b.toNat) := by
  cases rest with
  | nil => simp
  | cons c rest =>
    have hne := String.utf8EncodeChar_ne_nil (c := c)
    rw [encode_cons, head?_append_of_ne_nil _ hne, head?_cons, Option.some_inj]
    have hofNat : (Char.ofNat b.toNat).toNat = b.toNat := by
      rw [Char.ofNat, dif_pos (Or.inl (by omega))]
      rfl
    grind [encodeChar_ascii, UInt8.toNat_ofNat', Char.ofNat_toNat, UInt8.ofNat_toNat, le_of_mem_encodeChar,
        mem_of_mem_head?]

section Runs

section

variable (h : At src i rest)
include h

theorem remaining_run : remaining src i = .ok rest i := by
  have hat : suffixAt src.input (min i src.logicalEnd) = some rest := by rwa [Nat.min_eq_left h.le]
  simp [remaining, hat]

theorem eof_run : eof src i = .ok (rest = []) i := by
  have := h.size_eq
  have hzero : size rest = 0 ↔ rest = [] := size_eq_zero
  have hiff : src.logicalEnd ≤ i ↔ rest = [] := by
    rw [← hzero]
    omega
  simp [eof, hiff]

theorem peekByte_run : peekByte src i = .ok (encode rest).head? i := by
  have hsize := h.size_eq
  have hget := h.getElem?_bytes 0
  rw [peekByte, bind_run, get_run]
  grind [pure_run, head?_eq_getElem?, size]

theorem peekChar_run : peekChar src i = .ok rest.head? i := by
  simp [peekChar, remaining_run h]

theorem atNewline_run : atNewline src i = .ok (rest.head?.any isNewlineChar) i := by
  rw [atNewline, bind_run, peekChar_run h]
  cases rest <;> rfl

theorem startsWith_run (s : Str) : startsWith src s i = .ok (s.isPrefixOf rest) i := by
  simp [startsWith, remaining_run h]

end

theorem bumpChar_nil (h : At src i []) : bumpChar src i = .ok none i := by
  simp [bumpChar, remaining_run h]

theorem bumpChar_cons (h : At src i (c :: rest)) : bumpChar src i = .ok (some c) (i + c.utf8Size) := by
  simp [bumpChar, remaining_run h]

theorem bumpByte_run (h : At src i (c :: rest)) (hc : c.toNat < 128) : bumpByte src i = .ok () (i + 1) := by
  have := h.size_eq
  have := utf8Size_ascii hc
  rw [size_cons] at *
  rw [bumpByte, modify_run, if_pos (by omega)]

theorem inputSlice_run {after rest : Str} (hi : At src i after) (hj : At src j rest) (h : i ≤ j) :
    ∃ s, after = s ++ rest ∧ size s = j - i ∧ ∀ k, inputSlice src i j k = .ok s k := by
  have hadd := suffixAt_add hi (j - i)
  rw [Nat.add_sub_cancel' h, hj] at hadd
  obtain ⟨s, hs, hlen⟩ := suffixAt_eq_some.mp hadd.symm
  refine ⟨s, hs, hlen, fun k => ?_⟩
  have htake : after.take (after.length - rest.length) = s := by simp [hs]
  rw [At] at hi hj
  simp [inputSlice, hi, hj, h, htake]

end Runs

/-- Started at or behind `i`, a call comes back on a boundary that is not before
`i`, with `Q` for a value. -/
def Moves (src : Source) (i : Nat) (Q : α → Nat → Prop) : EStateM.Result (Fault ErrorCtx) Nat α → Prop :=
  Returns (fun a j => (i ≤ j ∧ OnBoundary src j) ∧ Q a j) (fun _ j => i ≤ j ∧ OnBoundary src j)

section Moves

variable {Q Q' : α → Nat → Prop} {R : β → Nat → Prop} {x : Lex α} {f : α → Lex β}

theorem Moves.bind (hx : Moves src i Q (x j))
    (hf : ∀ a k, i ≤ k → OnBoundary src k → Q a k → Moves src i R (f a k)) : Moves src i R ((x >>= f) j) :=
  Returns.bind hx fun a k h => hf a k h.1.1 h.1.2 h.2

theorem Moves.step {a : α} {k : Nat} (hx : x j = .ok a k) (hf : Moves src i R (f a k)) : Moves src i R ((x >>= f) j) := by
  rwa [bind_run, hx]

theorem Moves.ok {a : α} (hi : i ≤ j) (hj : OnBoundary src j) (hQ : Q a j) : Moves src i Q (.ok a j) := ⟨⟨hi, hj⟩, hQ⟩

theorem Moves.fail {e : ErrorCtx} (hi : i ≤ j) (hj : OnBoundary src j) : Moves src i Q (.error (.error e) j) := ⟨hi, hj⟩

theorem Moves.mono {r : EStateM.Result (Fault ErrorCtx) Nat α} (h : Moves src j Q r) (hi : i ≤ j)
    (hQ : ∀ a k, j ≤ k → OnBoundary src k → Q a k → Q' a k) : Moves src i Q' r :=
  Returns.mono h (fun a k h => ⟨⟨hi.trans h.1.1, h.1.2⟩, hQ a k h.1.1 h.1.2 h.2⟩) fun _ _ h => ⟨hi.trans h.1, h.2⟩

theorem Moves.loop {round : α → Lex (Round α β)} (left : α → Nat → Nat) {P : α → Nat → Prop}
    (hround : ∀ a k, i ≤ k → OnBoundary src k → P a k →
      Moves src i (Round.Meets (fun a' l => P a' l ∧ left a' l < left a k) R) (round a k))
    {rounds : Nat} {a : α} (hi : i ≤ j) (hj : OnBoundary src j) (hP : P a j) (hleft : left a j < rounds) :
    Moves src i R (loop round rounds a j) := by
  refine loop_returns (P := fun a k => (i ≤ k ∧ OnBoundary src k) ∧ P a k) left (fun a k h => ?_) ⟨⟨hi, hj⟩, hP⟩ hleft
  refine Returns.mono (hround a k h.1.1 h.1.2 h.2) (fun r l hl => ?_) fun _ _ h => h
  cases r with
  | again a' => exact ⟨⟨hl.1, hl.2.1⟩, hl.2.2⟩
  | done b => exact ⟨hl.1, hl.2⟩

end Moves

end TensorDE.Kdl
