import TensorDE.Kdl.Entries
import TensorDE.Kdl.Place

set_option linter.dupNamespace false

namespace TensorDE.Kdl

open Effect Utf8 List

/-- What stands behind a token: the end, or a character no identifier has. -/
def Terminated (rest : Str) : Prop := ∀ c ∈ rest.head?, isNonIdentifierChar c = true

inductive Radix where
  | bin | oct | dec | hex
deriving DecidableEq

namespace Radix

def base : Radix → Nat
  | bin => 2
  | oct => 8
  | dec => 10
  | hex => 16

def isDigit : Radix → Char → Bool
  | bin => fun c => c = '0' || c = '1'
  | oct => fun c => '0' ≤ c && c ≤ '7'
  | dec => isAsciiDigit
  | hex => isAsciiHexdigit

def mark (upper : Bool) : Radix → Str
  | bin => ['0', if upper then 'B' else 'b']
  | oct => ['0', if upper then 'O' else 'o']
  | dec => []
  | hex => ['0', if upper then 'X' else 'x']

end Radix

def digitsFrom (isDigit : Char → Bool) : Bool → Str → Bool
  | _, [] => true
  | lastUnderscore, c :: s =>
    if c = '_' then !lastUnderscore && digitsFrom isDigit true s else isDigit c && digitsFrom isDigit false s

def digitRun (isDigit : Char → Bool) : Str → Bool
  | [] => false
  | c :: s => isDigit c && digitsFrom isDigit false s

inductive Sign where
  | none | plus | minus
deriving DecidableEq

def Sign.text : Sign → Str
  | none => []
  | plus => ['+']
  | minus => ['-']

structure IntLiteral where
  sign : Sign
  radix : Radix
  upper : Bool
  digits : Str
  run : digitRun radix.isDigit digits = true

namespace IntLiteral

variable (lit : IntLiteral)

def text : Str := lit.sign.text ++ lit.radix.mark lit.upper ++ lit.digits

def magnitude : Nat := Nat.ofDigits lit.radix.base ((lit.digits.filter (· ≠ '_')).reverse.map hexDigit)

def value : Int := if lit.sign = .minus then -lit.magnitude else lit.magnitude

end IntLiteral

section Digits

theorem digitsValue_append (base : Nat) (digits : Str) (c : Char) :
    digitsValue base (digits ++ [c]) = digitsValue base digits * base + hexDigit c := by
  rw [digitsValue, foldl_append]
  rfl

theorem digitsValue_eq (base : Nat) (digits : Str) :
    digitsValue base digits = Nat.ofDigits base (digits.reverse.map hexDigit) := by
  induction digits using reverseRecOn with
  | nil => rfl
  | append_singleton digits c ih =>
    rw [digitsValue_append, ih, reverse_append, reverse_singleton, singleton_append, map_cons,
      Nat.ofDigits_cons]
    ring

theorem word_ascii : ∀ n : Fin 128,
    (isAsciiAlphanumeric (Char.ofNat n) || Char.ofNat n = '_' || Char.ofNat n = '.') = true →
      isNonIdentifierChar (Char.ofNat n) = false := by decide

theorem digit_ascii (radix : Radix) : ∀ n : Fin 128, radix.isDigit (Char.ofNat n) = true →
    isAsciiAlphanumeric (Char.ofNat n) = true ∧ Char.ofNat n ≠ '_' := by cases radix <;> decide

variable {c : Char}

theorem isAsciiAlphanumeric_lt (h : isAsciiAlphanumeric c = true) : c.toNat < 128 := by
  simp only [isAsciiAlphanumeric, isAsciiDigit, Bool.or_eq_true, Bool.and_eq_true, decide_eq_true_eq] at h
  obtain (h | h) | h := h
  · have : c.toNat ≤ 57 := h.2
    omega
  · have : c.toNat ≤ 122 := h.2
    omega
  · have : c.toNat ≤ 90 := h.2
    omega

theorem not_word (h : isNonIdentifierChar c = true) : isAsciiAlphanumeric c = false ∧ c ≠ '_' ∧ c ≠ '.' := by
  have hword : ¬ (isAsciiAlphanumeric c || c = '_' || c = '.') = true := by
    intro hword
    have hlt : c.toNat < 128 := by
      simp only [Bool.or_eq_true, decide_eq_true_eq] at hword
      obtain (h | rfl) | rfl := hword
      · exact isAsciiAlphanumeric_lt h
      · decide
      · decide
    have := word_ascii ⟨c.toNat, hlt⟩
    rw [Char.ofNat_toNat] at this
    rw [this hword] at h
    cases h
  grind

variable {radix : Radix}

theorem Radix.digit_lt (h : radix.isDigit c = true) : c.toNat < 128 := by
  have hhex : ∀ c, isAsciiHexdigit c = true → c.toNat < 128 := fun c h => by
    have := isAsciiHexdigit_iff.mp h
    omega
  cases radix with
  | bin =>
    simp only [Radix.isDigit, Bool.or_eq_true, decide_eq_true_eq] at h
    obtain rfl | rfl := h <;> decide
  | oct =>
    simp only [Radix.isDigit, Bool.and_eq_true, decide_eq_true_eq] at h
    have : c.toNat ≤ 55 := h.2
    omega
  | dec =>
    have := isAsciiDigit_iff.mp h
    omega
  | hex => exact hhex c h

theorem Radix.digit_word (h : radix.isDigit c = true) : isAsciiAlphanumeric c = true ∧ c ≠ '_' := by
  have := digit_ascii radix ⟨c.toNat, digit_lt h⟩
  rw [Char.ofNat_toNat] at this
  exact this h

end Digits

section Runs

variable {src : Source} {i : Nat} {rest s : Str} {isDigit : Char → Bool}

theorem digits_loop (hstop : ∀ c ∈ rest.head?, isDigit c = false ∧ c ≠ '_') {last : Bool} {rounds : Nat}
    (h : At src i (s ++ rest)) (hs : digitsFrom isDigit last s = true) (hrounds : s.length < rounds) :
    loop (digitsRound src isDigit) rounds ⟨last, true⟩ i = .ok () (i + size s) := by
  induction s generalizing i last rounds with
  | nil =>
    obtain ⟨rounds, rfl⟩ : ∃ n, rounds = n + 1 := ⟨rounds - 1, by omega⟩
    rw [nil_append] at h
    rw [loop, bind_run, digitsRound, bind_run, peekChar_run h]
    cases hc : rest.head? with
    | none => rfl
    | some c =>
      obtain ⟨hdigit, hne⟩ := hstop c hc
      simp only [if_neg hne, hdigit]
      rfl
  | cons c s ih =>
    obtain ⟨rounds, rfl⟩ : ∃ n, rounds = n + 1 := ⟨rounds - 1, by omega⟩
    rw [length_cons, Nat.add_lt_add_iff_right] at hrounds
    rw [cons_append] at h
    rw [loop, bind_run, digitsRound, bind_run, peekChar_run h, head?_cons, size_cons, ← Nat.add_assoc]
    rw [digitsFrom] at hs
    by_cases hc : c = '_'
    · rw [if_pos hc, Bool.and_eq_true] at hs
      have hlast : last = false := by simpa using hs.1
      simp only [if_pos hc, hlast, Bool.not_true, Bool.or_self, Bool.false_eq_true, if_false, bind_run, bumpChar_cons h]
      exact ih h.tail hs.2 hrounds
    · rw [if_neg hc, Bool.and_eq_true] at hs
      simp only [if_neg hc, hs.1, if_true, bind_run, bumpChar_cons h]
      exact ih h.tail hs.2 hrounds

theorem length_le_size (s : Str) : s.length ≤ size s := by
  induction s with
  | nil => exact le_rfl
  | cons c s ih =>
    have := c.utf8Size_pos
    rw [length_cons, size_cons]
    omega

variable {radix : Radix} {digits : Str}

section

variable (hrest : Terminated rest)
include hrest

theorem stops : ∀ c ∈ rest.head?, radix.isDigit c = false ∧ c ≠ '_' := by
  intro c hc
  obtain ⟨halnum, hne, -⟩ := not_word (hrest c hc)
  grind +splitImp +splitIndPred [Radix.digit_word]

theorem consumeDigits_run (h : At src i (digits ++ rest)) (hrun : digitRun radix.isDigit digits = true) :
    consumeDigitsUnderscores src radix.isDigit i = .ok () (i + size digits) := by
  cases digits with
  | nil => cases hrun
  | cons c s =>
    rw [digitRun, Bool.and_eq_true] at hrun
    rw [cons_append] at h
    have hlen : s.length < size (s ++ rest) + 1 := by
      have := length_le_size (s ++ rest)
      rw [length_append] at this
      omega
    have hsize := h.tail.size_eq
    rw [consumeDigitsUnderscores, Source.rounds, loop, bind_run, digitsRound, bind_run, peekChar_run h, head?_cons]
    simp only [if_neg (Radix.digit_word hrun.1).2, hrun.1, if_true, bind_run, bumpChar_cons h]
    rw [size_cons, ← Nat.add_assoc]
    exact digits_loop (stops hrest) h.tail hrun.2 (by omega)

theorem trailer_run (h : At src i rest) (start : Nat) : rejectNumberTrailer src start i = .ok () i := by
  rw [rejectNumberTrailer, bind_run, peekChar_run h]
  cases hc : rest.head? with
  | none => rfl
  | some c =>
    obtain ⟨halnum, hunder, hdot⟩ := not_word (hrest c hc)
    grind [pure_run]

end

variable {pre : Str}

theorem slice_run (h : At src i (pre ++ rest)) (k : Nat) : inputSlice src i (i + size pre) k = .ok pre k := by
  grind +splitImp +splitIndPred [inputSlice_run, h.append, append_cancel_right]

theorem digits_size (hrun : digitRun radix.isDigit digits = true) : 0 < size digits := by
  cases digits with
  | nil => cases hrun
  | cons c s =>
    have := c.utf8Size_pos
    rw [size_cons]
    omega

def numberResult (src : Source) (start j : Nat) : Option Int → EStateM.Result (Fault ErrorCtx) Nat Value
  | some n => .ok (.int n) j
  | none => .error (.error ((ErrorCtx.new .invalidNumber (min start src.logicalEnd)).withConsumed (min j src.logicalEnd))) j

theorem bind_step {α β : Type} {x : Lex α} {f : α → Lex β} {a : α} {j k : Nat} (h : x j = .ok a k) :
    (x >>= f) j = f a k := by
  rw [bind_run, h]

variable {negative : Bool}

section

variable (hrest : Terminated rest)
include hrest

theorem parseRadix_run {signLen base : Nat} (hpre : size pre = signLen + 2) (h : At src i (pre ++ (digits ++ rest)))
    (hrun : digitRun radix.isDigit digits = true) : parseRadix src i signLen negative base radix.isDigit i =
      numberResult src i (i + size (pre ++ digits))
        ((parseI128 base false (digits.filter (· ≠ '_'))).map fun n => if negative then -n else n) := by
  have hat := h.append pre
  have hpos := digits_size hrun
  have hadvance : advance (signLen + 2) i = .ok () (i + size pre) := by rw [advance, modify_run, hpre]
  rw [size_append, ← Nat.add_assoc, parseRadix, bind_run, hadvance]
  generalize parseI128 base false = parse
  simp only [bind_run, get_run, consumeDigits_run hrest hat hrun]
  rw [if_neg (by omega)]
  refine (bind_step (trailer_run hrest (hat.append digits) i)).trans ((bind_step (slice_run hat _)).trans ?_)
  generalize parse (digits.filter (· ≠ '_')) = n
  cases n with
  | none => rfl
  | some n => rfl

theorem peek_terminated (h : At src i rest) {b : UInt8} (hb : b.toNat < 128)
    (hword : isNonIdentifierChar (Char.ofNat b.toNat) = false) : peekByte src i = .ok (encode rest).head? i ∧
      (encode rest).head? ≠ some b := by
  refine ⟨peekByte_run h, fun hhead => ?_⟩
  have := hrest _ ((head?_encode hb).mp hhead)
  rw [hword] at this
  cases this

theorem parseDecimal_run {sign : Str}
    (hsign : sign = [] ∨ ∃ c, sign = [c] ∧ c.toNat < 128 ∧ c ≠ '_') (h : At src i (sign ++ (digits ++ rest)))
    (hrun : digitRun Radix.dec.isDigit digits = true) : parseDecimal src i (sign ≠ []) negative i =
      numberResult src i (i + size (sign ++ digits)) (parseI128 10 negative (digits.filter (· ≠ '_'))) := by
  have hat := h.append sign
  have hend := hat.append digits
  have hpos := digits_size hrun
  have hbump : bumpByteIf src (sign ≠ []) i = .ok () (i + size sign) := by
    obtain rfl | ⟨c, rfl, hc, -⟩ := hsign
    · simp [bumpByteIf]
    · rw [bumpByteIf, if_pos (by simp), singleton_append] at *
      rw [bumpByte_run h hc, size_cons, utf8Size_ascii hc, size_nil]
  have hdrop : ((sign ++ digits).filter (· ≠ '_')).drop (decide (sign ≠ [])).toNat = digits.filter (· ≠ '_') := by
    obtain rfl | ⟨c, rfl, -, hc⟩ := hsign
    · rfl
    · simp [hc]
  have hslice : inputSlice src i (i + size (sign ++ digits)) (i + size (sign ++ digits)) =
      .ok (sign ++ digits) (i + size (sign ++ digits)) := slice_run (by rwa [append_assoc]) _
  rw [size_append, ← Nat.add_assoc] at hslice ⊢
  obtain ⟨hpeek, hdot⟩ := peek_terminated hrest hend (b := '.'.toUInt8) (by decide) (by decide)
  obtain ⟨-, he⟩ := peek_terminated hrest hend (b := 'e'.toUInt8) (by decide) (by decide)
  obtain ⟨-, hE⟩ := peek_terminated hrest hend (b := 'E'.toUInt8) (by decide) (by decide)
  have hfraction : parseFraction src i (i + size sign + size digits) = .ok false (i + size sign + size digits) := by
    rw [parseFraction, bind_run, hpeek]
    simp only
    rw [if_neg hdot]
    rfl
  have hexponent : parseExponent src i (i + size sign + size digits) = .ok false (i + size sign + size digits) := by
    rw [parseExponent, bind_run, hpeek]
    simp only
    rw [if_neg (by rintro (h | h); exacts [he h, hE h])]
    rfl
  have hconsume := consumeDigits_run hrest hat hrun
  change consumeDigitsUnderscores src isAsciiDigit _ = _ at hconsume
  rw [parseDecimal, bind_run, hbump]
  generalize parseI128 10 negative = parse
  simp only [bind_run, get_run, hconsume]
  rw [if_neg (by omega)]
  refine (bind_step hfraction).trans ((bind_step hexponent).trans ((bind_step (trailer_run hrest hend i)).trans ?_))
  refine (bind_step (get_run _)).trans ((bind_step hslice).trans ?_)
  rw [Bool.or_self, if_neg Bool.false_ne_true, hdrop]
  generalize parse (digits.filter (· ≠ '_')) = n
  cases n with
  | none => rfl
  | some n => rfl

/-- Nothing behind the first digit of a decimal number makes a radix mark of it. -/
theorem noMark (hrun : digitRun Radix.dec.isDigit digits = true) {m : Char}
    (hm : isAsciiAlphanumeric m = true) (hdigit : isAsciiDigit m = false) (hne : m ≠ '_') :
    ['0', m].isPrefixOf (digits ++ rest) = false := by
  cases digits with
  | nil => cases hrun
  | cons c s =>
    rw [digitRun, Bool.and_eq_true] at hrun
    rw [cons_append, isPrefixOf_cons_cons, Bool.and_eq_false_iff]
    right
    cases s with
    | nil =>
      cases rest with
      | nil => rfl
      | cons d rest =>
        rw [nil_append, isPrefixOf_cons_cons, Bool.and_eq_false_iff, beq_eq_false_iff_ne]
        left
        rintro rfl
        rw [(not_word (hrest m rfl)).1] at hm
        cases hm
    | cons d s =>
      rw [cons_append, isPrefixOf_cons_cons, Bool.and_eq_false_iff, beq_eq_false_iff_ne]
      left
      rintro rfl
      have := hrun.2
      rw [digitsFrom, if_neg hne, Bool.and_eq_true] at this
      exact absurd this.1 (by simpa [Radix.isDigit] using hdigit)

end

end Runs

section Literal

variable {src : Source} {i : Nat} {rest : Str} (lit : IntLiteral)

def InI128 (v : Int) : Prop := -2 ^ 127 ≤ v ∧ v < 2 ^ 127

instance (v : Int) : Decidable (InI128 v) := inferInstanceAs (Decidable (_ ∧ _))

namespace IntLiteral

/-- What the two parsers make of the digits. Behind a radix mark they are read
without their sign. -/
def parsed : Option Int :=
  let negative : Bool := lit.sign = .minus
  if lit.radix = .dec then parseI128 10 negative (lit.digits.filter (· ≠ '_'))
  else (parseI128 lit.radix.base false (lit.digits.filter (· ≠ '_'))).map fun n => if negative then -n else n

theorem parsed_eq : lit.parsed =
      if InI128 lit.value ∧ ¬ (lit.radix ≠ .dec ∧ lit.value = -2 ^ 127) then some lit.value else none := by
  have hvalue : digitsValue lit.radix.base (lit.digits.filter (· ≠ '_')) = lit.magnitude := digitsValue_eq _ _
  grind [parsed, parseI128, InI128, value, Radix.base]

theorem head_digit : ∃ c s, lit.radix.mark lit.upper ++ lit.digits = c :: s ∧ isAsciiDigit c = true := by
  obtain ⟨sign, radix, upper, digits, hrun⟩ := lit
  cases radix with
  | dec =>
    cases digits with
    | nil => cases hrun
    | cons c s =>
      rw [digitRun, Bool.and_eq_true] at hrun
      exact ⟨c, s, rfl, hrun.1⟩
  | bin => exact ⟨'0', _, rfl, by decide⟩
  | oct => exact ⟨'0', _, rfl, by decide⟩
  | hex => exact ⟨'0', _, rfl, by decide⟩

end IntLiteral

/-- `parse_number` behind the sign: `rest` is what the sign leaves. -/
def parseUnsigned (src : Source) (start : Nat) (signed negative : Bool) (rest : Str) : Lex Value :=
  if ['0', 'x'].isPrefixOf rest || ['0', 'X'].isPrefixOf rest then
    parseRadix src start signed.toNat negative 16 isAsciiHexdigit
  else if ['0', 'o'].isPrefixOf rest || ['0', 'O'].isPrefixOf rest then
    parseRadix src start signed.toNat negative 8 fun c => '0' ≤ c && c ≤ '7'
  else if ['0', 'b'].isPrefixOf rest || ['0', 'B'].isPrefixOf rest then
    parseRadix src start signed.toNat negative 2 fun c => c = '0' || c = '1'
  else parseDecimal src start signed negative

theorem parseNumber_sign {sign : Sign} {s : Str} (hs : ∃ c t, s = c :: t ∧ isAsciiDigit c = true)
    (h : At src i (sign.text ++ s)) : parseNumber src i = parseUnsigned src i (sign.text ≠ []) (sign = .minus) s i := by
  rw [parseNumber, bind_step (get_run i), bind_step (remaining_run h), parseUnsigned]
  cases sign with
  | none =>
    obtain ⟨c, t, rfl, hc⟩ := hs
    have hplus : c ≠ '+' := by rintro rfl; cases hc
    have hminus : c ≠ '-' := by rintro rfl; cases hc
    simp [Sign.text, hplus, hminus]
  | plus => rfl
  | minus => rfl

theorem parseUnsigned_run (hrest : Terminated rest) (h : At src i (lit.text ++ rest)) :
    parseUnsigned src i (lit.sign.text ≠ []) (lit.sign = .minus) (lit.radix.mark lit.upper ++ lit.digits ++ rest) i =
      numberResult src i (i + size lit.text) lit.parsed := by
  obtain ⟨sign, radix, upper, digits, hrun⟩ := lit
  have hradix : radix ≠ .dec → parseRadix src i (decide (sign.text ≠ [])).toNat (decide (sign = .minus)) radix.base
      radix.isDigit i = numberResult src i (i + size (sign.text ++ radix.mark upper ++ digits))
        (IntLiteral.parsed ⟨sign, radix, upper, digits, hrun⟩) := by
    intro hne
    have hmark : size (radix.mark upper) = 2 := by cases radix <;> cases upper <;> first | rfl | exact absurd rfl hne
    have hlen : size (sign.text ++ radix.mark upper) = (decide (sign.text ≠ [])).toNat + 2 := by
      rw [size_append, hmark]
      cases sign <;> rfl
    have hat : At src i (sign.text ++ radix.mark upper ++ (digits ++ rest)) := by
      simpa [IntLiteral.text] using h
    grind -linarith [parseRadix_run, IntLiteral.parsed]
  rw [parseUnsigned]
  cases radix with
  | dec =>
    have hsign : sign.text = [] ∨ ∃ c, sign.text = [c] ∧ c.toNat < 128 ∧ c ≠ '_' := by
      cases sign with
      | none => exact Or.inl rfl
      | plus => exact Or.inr ⟨'+', rfl, by decide, by decide⟩
      | minus => exact Or.inr ⟨'-', rfl, by decide, by decide⟩
    grind +splitImp +splitIndPred [isAsciiAlphanumeric, isAsciiDigit, noMark, IntLiteral.text, Radix.mark, parseDecimal_run, IntLiteral.parsed]
  | bin =>
    have hprefix : ['0', 'b'].isPrefixOf (Radix.bin.mark upper ++ digits ++ rest) = true ∨
        ['0', 'B'].isPrefixOf (Radix.bin.mark upper ++ digits ++ rest) = true := by
      cases upper <;> simp [Radix.mark]
    rw [if_neg (by cases upper <;> simp [Radix.mark]), if_neg (by cases upper <;> simp [Radix.mark]),
      if_pos (by rwa [Bool.or_eq_true])]
    exact hradix (by decide)
  | oct =>
    have hprefix : ['0', 'o'].isPrefixOf (Radix.oct.mark upper ++ digits ++ rest) = true ∨
        ['0', 'O'].isPrefixOf (Radix.oct.mark upper ++ digits ++ rest) = true := by
      cases upper <;> simp [Radix.mark]
    rw [if_neg (by cases upper <;> simp [Radix.mark]), if_pos (by rwa [Bool.or_eq_true])]
    exact hradix (by decide)
  | hex =>
    have hprefix : ['0', 'x'].isPrefixOf (Radix.hex.mark upper ++ digits ++ rest) = true ∨
        ['0', 'X'].isPrefixOf (Radix.hex.mark upper ++ digits ++ rest) = true := by
      cases upper <;> simp [Radix.mark]
    rw [if_pos (by rwa [Bool.or_eq_true])]
    exact hradix (by decide)

theorem parseNumber_run (hrest : Terminated rest) (h : At src i (lit.text ++ rest)) :
    parseNumber src i = numberResult src i (i + size lit.text) lit.parsed := by
  obtain ⟨c, s, hs, hc⟩ := lit.head_digit
  have hat : At src i (lit.sign.text ++ (lit.radix.mark lit.upper ++ lit.digits ++ rest)) := by
    simpa [IntLiteral.text] using h
  rw [parseNumber_sign ⟨c, s ++ rest, by rw [hs, cons_append], hc⟩ hat]
  exact parseUnsigned_run lit hrest h

theorem parseValueAfterType_number (h : At src i (lit.text ++ rest)) :
    parseValueAfterType src i = parseNumber src i := by
  obtain ⟨c, s, hs, hc⟩ := lit.head_digit
  have htext : lit.text = lit.sign.text ++ c :: s := by rw [IntLiteral.text, append_assoc, hs]
  have hdigit := isAsciiDigit_iff.mp hc
  rw [htext, append_assoc] at h
  obtain ⟨d, t, hd, hlt, hlike⟩ : ∃ d t, lit.sign.text ++ (c :: s ++ rest) = d :: t ∧ (43 ≤ d.toNat ∧ d.toNat < 128) ∧
      ((d = '+' || d = '-' || d = '.' || isAsciiDigit d) = true ∧ numberLike (d :: t) = true) := by
    cases hsign : lit.sign with
    | none =>
      have hplus : c ≠ '+' := by rintro rfl; cases hc
      have hminus : c ≠ '-' := by rintro rfl; cases hc
      have hdot : c ≠ '.' := by rintro rfl; cases hc
      exact ⟨c, s ++ rest, rfl, by omega, by simp [hc], by simp [numberLike, hplus, hminus, hdot, hc]⟩
    | plus => exact ⟨'+', c :: s ++ rest, rfl, by decide, by decide, by simp [numberLike, hc]⟩
    | minus => exact ⟨'-', c :: s ++ rest, rfl, by decide, by decide, by simp [numberLike, hc]⟩
  rw [hd] at h
  have hbyte : ∀ b : UInt8, b.toNat < 43 → (encode (d :: t)).head? ≠ some b := by
    intro b hb hhead
    have := (head?_encode (by omega)).mp hhead
    rw [head?_cons, Option.some_inj] at this
    rw [this, Char.ofNat, dif_pos (Or.inl (by omega))] at hlt
    exact absurd hlt.1 (by change ¬ 43 ≤ b.toNat; omega)
  rw [parseValueAfterType, bind_step (eof_run h), if_neg (by simp), bind_step (peekByte_run h),
    if_neg (hbyte _ (by decide)), if_neg (hbyte _ (by decide)), bind_step (peekChar_run h)]
  have hlooks : looksLikeNumber src i = .ok true i := by
    rw [looksLikeNumber, bind_step (remaining_run h), hlike.2, pure_run]
  simp only [head?_cons]
  rw [startsNumber, if_pos hlike.1, bind_step hlooks]
  rfl

def ReadsExactly (src : Source) (i : Nat) : Prop :=
  if InI128 lit.value then parseValueAfterType src i = .ok (.int lit.value) (i + size lit.text)
  else ∃ e j, parseValueAfterType src i = .error (.error e) j ∧ e.code = .invalidNumber

theorem least_rejected (hrest : Terminated rest) (h : At src i (lit.text ++ rest))
    (hleast : lit.radix ≠ .dec ∧ lit.value = -2 ^ 127) : ¬ ReadsExactly lit src i := by
  grind +splitImp +splitIndPred [InI128, ReadsExactly, parseValueAfterType_number, parseNumber_run, lit.parsed_eq, numberResult]

/-- A literal with a radix mark is read without its sign, so the least `i128` has
none. Every other literal is read exactly, whatever its length. -/
theorem readsExactly_iff (hrest : Terminated rest) (h : At src i (lit.text ++ rest)) :
    ReadsExactly lit src i ↔ ¬ (lit.radix ≠ .dec ∧ lit.value = -2 ^ 127) := by
  refine ⟨fun hread hleast => least_rejected lit hrest h hleast hread, fun hleast => ?_⟩
  rw [ReadsExactly, parseValueAfterType_number lit h, parseNumber_run lit hrest h, lit.parsed_eq]
  by_cases hin : InI128 lit.value
  · grind [numberResult]
  · rw [if_neg hin, if_neg fun h => hin h.1, numberResult]
    exact ⟨_, _, rfl, rfl⟩

end Literal

def literalSource (lit : IntLiteral) : Source := ⟨lit.text ++ [], false, 2 ^ 64, 2 ^ 64, 64⟩

/-- `-0x1_f` -/
def smallHex : IntLiteral := ⟨.minus, .hex, false, ['1', '_', 'f'], rfl⟩

theorem smallHex_read : smallHex.value = -31 ∧ ReadsExactly smallHex (literalSource smallHex) 0 := by
  have hvalue : smallHex.value = -31 := rfl
  refine ⟨hvalue, (readsExactly_iff smallHex (by simp [Terminated]) (At.start _)).mpr fun h => ?_⟩
  rw [hvalue] at h
  exact absurd h.2 (by norm_num)

/-- `-0x8000…0`, the least value, which fits. -/
def leastHex : IntLiteral := ⟨.minus, .hex, false, '8' :: List.replicate 31 '0', by decide⟩

theorem leastHex_rejected : InI128 leastHex.value ∧ ¬ ReadsExactly leastHex (literalSource leastHex) 0 := by
  have hvalue : leastHex.value = -2 ^ 127 := by decide +kernel
  refine ⟨?_, least_rejected leastHex (by simp [Terminated]) (At.start _) ⟨by decide, hvalue⟩⟩
  rw [hvalue]
  exact ⟨le_rfl, by norm_num⟩

end TensorDE.Kdl
