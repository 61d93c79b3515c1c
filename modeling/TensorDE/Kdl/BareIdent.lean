import TensorDE.Kdl.Numbers
import TensorDE.Kdl.Sink
import TensorDE.Kdl.SpaceBounds

set_option linter.dupNamespace false

namespace TensorDE.Kdl

open Effect Utf8 List

section Space

variable {src : Source} {i : Nat} {c : Char} {rest : Str}

def Solid (c : Char) : Prop := isUnicodeSpace c = false ∧ c ≠ '/' ∧ c ≠ '\\'

variable {b : UInt8}

theorem head?_ne (hb : b.toNat < 128) (hc : c ≠ Char.ofNat b.toNat) : (encode (c :: rest)).head? ≠ some b := by
  intro h
  have := (head?_encode hb).mp h
  rw [head?_cons, Option.some_inj] at this
  exact hc this

theorem blankRun_solid (padding : Nat) {bytes : Bytes} (h32 : b ≠ 32) (h9 : b ≠ 9) :
    blankRun (lastWord padding) (b :: bytes) = 0 := by
  have hlanes : ∀ bytes, blankLanes none (b :: bytes) = 0 := by
    intro bytes
    rw [blankLanes, if_neg (by simp [h32]), if_neg (by simp [h9])]
  by_cases hlen : 8 ≤ (b :: bytes).length
  · rw [blankRun_word hlen, take_succ_cons, hlanes, if_pos (by omega)]
  · rw [blankRun_last (by omega), lastWord]
    split
    · simp [scalarBlanks, isBlank, h32, h9]
    · exact hlanes bytes

theorem skipHorizontal_solid (h : At src i (c :: rest)) (hc : Solid c) :
    skipAsciiHorizontalWs src.bytes i src.logicalEnd = i := by
  have hspace : ∀ b : UInt8, isUnicodeSpace (Char.ofNat b.toNat) = true → b.toNat < 128 →
      (encode (c :: rest)).head? ≠ some b := by
    intro b hb hlt
    refine head?_ne hlt ?_
    rintro rfl
    rw [hc.1] at hb
    cases hb
  rw [skipAsciiHorizontalWs_at h]
  cases hbytes : encode (c :: rest) with
  | nil => exact absurd hbytes (by simp)
  | cons b bytes =>
    rw [hbytes] at hspace
    have h32 : b ≠ 32 := fun hb => hspace 32 (by decide) (by decide) (by rw [hb, head?_cons])
    have h9 : b ≠ 9 := fun hb => hspace 9 (by decide) (by decide) (by rw [hb, head?_cons])
    rw [blankRun_solid _ h32 h9, Nat.add_zero]

theorem loop_done {round : Unit → Lex (Round Unit Unit)} (h : round () i = .ok (.done ()) i) :
    loop round src.rounds () i = .ok () i := by
  rw [Source.rounds, loop, bind_step h]
  rfl

theorem skipWsOnly_solid (h : At src i (c :: rest)) (hc : Solid c) : skipWsOnly src i = .ok () i := by
  refine loop_done ?_
  have hset : (set (skipAsciiHorizontalWs src.bytes i src.logicalEnd) : Lex PUnit) i = .ok ⟨⟩ i := by
    rw [set_run, skipHorizontal_solid h hc]
  have hslash : ¬ ['/', '*'].isPrefixOf (c :: rest) = true := by
    simp [Ne.symm hc.2.1]
  rw [wsOnlyRound, bind_step (get_run i), bind_step hset, bind_step (peekChar_run h), head?_cons, Option.any_some,
    hc.1, if_neg Bool.false_ne_true, bind_step (startsWith_run h _), if_neg hslash, bind_step (get_run i), if_pos rfl,
    pure_run]

theorem skipNodeSpace_solid (h : At src i (c :: rest)) (hc : Solid c) : skipNodeSpace src i = .ok () i := by
  have hround : nodeSpaceRound src () i = .ok (.done ()) i := by
    rw [nodeSpaceRound, bind_step (get_run i), bind_step (skipWsOnly_solid h hc), bind_step (peekByte_run h),
      if_neg (head?_ne (by decide) hc.2.2), bind_step (get_run i), if_pos rfl, pure_run]
  have hcounted : skipNodeSpaceCounted src i = .ok (decide (i < i)) i := by
    rw [skipNodeSpaceCounted, bind_step (get_run i), bind_step (loop_done hround), bind_step (get_run i), pure_run]
  rw [skipNodeSpace, bind_step hcounted, pure_run]

end Space

section Ident

variable {src : Source} {i : Nat} {rest s : Str} {c : Char}

theorem ident_loop {rounds : Nat} (h : At src i (s ++ rest)) (hs : ∀ c ∈ s, isNonIdentifierChar c = false)
    (hrest : Terminated rest) (hrounds : s.length < rounds) : loop (identRound src) rounds () i = .ok () (i + size s) := by
  induction s generalizing i rounds with
  | nil =>
    obtain ⟨rounds, rfl⟩ : ∃ n, rounds = n + 1 := ⟨rounds - 1, by omega⟩
    rw [nil_append] at h
    rw [loop, bind_run, identRound, bind_step (peekChar_run h)]
    cases hc : rest.head? with
    | none => rfl
    | some c =>
      simp only [hrest c hc]
      rfl
  | cons c s ih =>
    obtain ⟨rounds, rfl⟩ : ∃ n, rounds = n + 1 := ⟨rounds - 1, by omega⟩
    rw [length_cons, Nat.add_lt_add_iff_right] at hrounds
    rw [cons_append] at h
    have hround : identRound src () i = .ok (.again ()) (i + c.utf8Size) := by
      rw [identRound, bind_step (peekChar_run h), head?_cons]
      simp only [hs c (mem_cons_self ..), Bool.false_eq_true, if_false]
      rw [bind_step (bumpChar_cons h), pure_run]
    rw [loop, bind_step hround, size_cons, ← Nat.add_assoc]
    exact ih h.tail (fun d hd => hs d (mem_cons_of_mem c hd)) hrounds

theorem head_not_digit (hrest : Terminated rest) (hs : s.head?.any isAsciiDigit = false) :
    ∀ c ∈ (s ++ rest).head?, isAsciiDigit c = false := by
  intro c hc
  cases s with
  | nil =>
    have := (not_word (hrest c hc)).1
    rw [isAsciiAlphanumeric, Bool.or_assoc, Bool.or_eq_false_iff] at this
    exact this.1
  | cons d s =>
    obtain rfl : d = c := by simpa using hc
    exact hs

/-- The character behind a dot is taken along where the identifier goes on. -/
theorem identAfterDot_run (start : Nat) (h : At src i ('.' :: (s ++ rest))) (hs : ∀ c ∈ s, isNonIdentifierChar c = false)
    (hrest : Terminated rest) (hdigit : s.head?.any isAsciiDigit = false) :
    ∃ pre post, s = pre ++ post ∧ identAfterDot src start i = .ok () (i + size ('.' :: pre)) := by
  have hnot := head_not_digit hrest hdigit
  have htail := h.tail
  rw [identAfterDot, bind_step (bumpChar_cons h), bind_step (peekChar_run htail)]
  cases s with
  | nil =>
    refine ⟨[], [], rfl, ?_⟩
    rw [nil_append] at hnot htail ⊢
    cases hc : rest.head? with
    | none => rfl
    | some n =>
      simp only [hnot n hc, hrest n hc]
      rfl
  | cons n s =>
    refine ⟨[n], s, rfl, ?_⟩
    rw [cons_append] at hnot htail ⊢
    simp only [head?_cons, hnot n rfl, hs n (mem_cons_self ..), Bool.false_eq_true, if_false]
    rw [bind_step (bumpChar_cons htail), pure_run, size_cons, size_cons, size_nil, Nat.add_zero, Nat.add_assoc]

theorem identAfterSign_run (start : Nat) (h : At src i (c :: (s ++ rest))) (hs : ∀ c ∈ s, isNonIdentifierChar c = false)
    (hrest : Terminated rest) (hdigit : s.head?.any isAsciiDigit = false)
    (hdot : (s.head? = some '.' && s[1]?.any isAsciiDigit) = false) :
    ∃ pre post, s = pre ++ post ∧ identAfterSign src start i = .ok () (i + size (c :: pre)) := by
  have hnot := head_not_digit hrest hdigit
  have htail := h.tail
  rw [identAfterSign, bind_step (bumpChar_cons h), bind_step (peekChar_run htail)]
  cases s with
  | nil =>
    refine ⟨[], [], rfl, ?_⟩
    rw [nil_append] at hnot htail ⊢
    rw [size_cons, size_nil, Nat.add_zero]
    cases hc : rest.head? with
    | none => rfl
    | some n =>
      have hn := (not_word (hrest n hc)).2.2
      simp only [hnot n hc, hn, hrest n hc]
      rfl
  | cons n s =>
    rw [cons_append] at hnot htail ⊢
    have hmem : ∀ d ∈ s, isNonIdentifierChar d = false := fun d hd => hs d (mem_cons_of_mem n hd)
    by_cases hn : n = '.'
    · subst hn
      have htwo : s.head?.any isAsciiDigit = false := by
        rw [head?_eq_getElem?]
        simpa using hdot
      obtain ⟨pre, post, hpre, hrun⟩ := identAfterDot_run start htail hmem hrest htwo
      refine ⟨'.' :: pre, post, by rw [hpre, cons_append], ?_⟩
      simp only [head?_cons, hnot '.' rfl, Bool.false_eq_true, if_false, if_true]
      rw [hrun, size_cons c, Nat.add_assoc]
    · refine ⟨[n], s, rfl, ?_⟩
      simp only [head?_cons, hnot n rfl, hn, hs n (mem_cons_self ..), Bool.false_eq_true, if_false]
      rw [bind_step (bumpChar_cons htail), pure_run, size_cons, size_cons, size_nil, Nat.add_zero, Nat.add_assoc]

theorem isBareIdent_cons (h : isBareIdent s = true) :
    ∃ c t, s = c :: t ∧ s ∉ bareKeywords ∧ numberStart s = false ∧ ∀ c ∈ s, isNonIdentifierChar c = false := by
  simp only [isBareIdent, Bool.and_eq_true, decide_eq_true_eq, Bool.not_eq_true', any_eq_false] at h
  cases s with
  | nil => exact absurd rfl h.1.1.1
  | cons c t =>
    refine ⟨c, t, rfl, h.1.1.2, h.1.2, fun d hd => ?_⟩
    have := h.2 d hd
    rw [Bool.not_eq_true, Bool.or_eq_false_iff] at this
    exact this.1

theorem identStart_run {t : Str} (h : At src i (c :: (t ++ rest))) (hs : ∀ d ∈ t, isNonIdentifierChar d = false)
    (hrest : Terminated rest) (hnum : numberStart (c :: t) = false) :
    ∃ pre post, t = pre ++ post ∧ identStart src c i i = .ok () (i + size (c :: pre)) := by
  simp only [numberStart, Bool.or_eq_false_iff] at hnum
  obtain ⟨⟨hdigit, hdot⟩, hsign⟩ := hnum
  rw [identStart]
  by_cases hplus : (c = '+' || c = '-') = true
  · rw [hplus, Bool.true_and, Bool.or_eq_false_iff] at hsign
    rw [if_pos hplus]
    exact identAfterSign_run i h hs hrest hsign.1 hsign.2
  · rw [if_neg hplus]
    by_cases hc : c = '.'
    · subst hc
      exact identAfterDot_run i h hs hrest (by simpa using hdot)
    · refine ⟨[], t, rfl, ?_⟩
      rw [if_neg hc, hdigit, if_neg Bool.false_ne_true, bind_step (bumpChar_cons h), pure_run, size_cons, size_nil,
        Nat.add_zero]

theorem parseIdentifierString_run (hbare : isBareIdent s = true) (hrest : Terminated rest) (h : At src i (s ++ rest)) :
    parseIdentifierString src i = .ok s (i + size s) := by
  obtain ⟨c, t, rfl, hkey, hnum, hs⟩ := isBareIdent_cons hbare
  have hat := h
  rw [cons_append] at h
  obtain ⟨pre, post, rfl, hstart⟩ := identStart_run h (fun d hd => hs d (mem_cons_of_mem c hd)) hrest hnum
  have hpost : At src (i + size (c :: pre)) (post ++ rest) := by
    have := At.append (c :: pre) (show At src i (c :: pre ++ (post ++ rest)) by simpa using h)
    exact this
  have hsize := hpost.size_eq
  have hlen : post.length < src.rounds := by
    have := length_le_size (post ++ rest)
    rw [length_append] at this
    rw [Source.rounds]
    omega
  have hloop := ident_loop hpost (fun d hd => hs d (by simp [hd])) hrest hlen
  have hpos := c.utf8Size_pos
  have hall : i + size (c :: pre) + size post = i + size (c :: (pre ++ post)) := by
    simp only [size_cons, size_append]
    omega
  rw [parseIdentifierString, bind_step (get_run i), bind_step (peekChar_run h), head?_cons]
  simp only [hs c (mem_cons_self ..), Bool.false_eq_true, if_false]
  rw [bind_step hstart, bind_step hloop, hall, identText, bind_step (get_run _),
    if_neg (by rw [size_cons]; omega), bind_step (slice_run hat _), if_neg (by exact hkey), pure_run]

end Ident

section Positions

variable {src : Source} {i : Nat} {rest s : Str}

variable {c : Char}

theorem solid_of_ident (h : isNonIdentifierChar c = false) : Solid c := by
  rw [isNonIdentifierChar, Bool.or_eq_false_iff, Bool.or_eq_false_iff, Bool.or_eq_false_iff] at h
  have hmem : c ∉ ['\\', '/', '(', ')', '{', '}', ';', '[', ']', '"', '#', '='] := of_decide_eq_false h.1.2
  refine ⟨h.1.1.1, ?_, ?_⟩
  · rintro rfl
    exact hmem (by decide)
  · rintro rfl
    exact hmem (by decide)

variable {t : Str}

theorem ident_head {b : UInt8} (h : isNonIdentifierChar c = false) (hb : b.toNat < 128)
    (hnon : isNonIdentifierChar (Char.ofNat b.toNat) = true) : (encode (c :: t)).head? ≠ some b := by
  refine head?_ne hb ?_
  rintro rfl
  rw [hnon] at h
  cases h

theorem parseStringValue_run (hbare : isBareIdent s = true) (hrest : Terminated rest) (h : At src i (s ++ rest)) :
    parseStringValue src i = .ok s (i + size s) := by
  have hrun := parseIdentifierString_run hbare hrest h
  obtain ⟨c, t, rfl, -, -, hs⟩ := isBareIdent_cons hbare
  have hc := hs c (mem_cons_self ..)
  rw [cons_append] at h
  have hquote : (encode (c :: (t ++ rest))).head? ≠ some '"'.toUInt8 := ident_head hc (by decide) (by decide)
  have hhash : (encode (c :: (t ++ rest))).head? ≠ some '#'.toUInt8 := ident_head hc (by decide) (by decide)
  rw [parseStringValue, bind_step (peekByte_run h)]
  cases hb : (encode (c :: (t ++ rest))).head? with
  | none => exact absurd (head?_eq_none_iff.mp hb) (by simp)
  | some b =>
    rw [hb, ne_eq, Option.some_inj] at hquote hhash
    simp only [if_neg hquote, if_neg hhash]
    exact hrun

/-- A sign with `inf` behind it starts a number to the reader. The writer only knows `-inf` itself. -/
def signedInf (s : Str) : Bool := ['+', 'i', 'n', 'f'].isPrefixOf s || ['-', 'i', 'n', 'f'].isPrefixOf s

theorem isPrefixOf_terminated (hrest : Terminated rest) {p : Str} (hp : ∀ c ∈ p, isNonIdentifierChar c = false) :
    p.isPrefixOf (s ++ rest) = p.isPrefixOf s := by
  induction p generalizing s with
  | nil => simp
  | cons d p ih =>
    cases s with
    | nil =>
      cases rest with
      | nil => rfl
      | cons c rest =>
        have hne : d ≠ c := by
          rintro rfl
          have := hrest d rfl
          rw [hp d (mem_cons_self ..)] at this
          cases this
        simp [isPrefixOf_cons_cons, hne]
    | cons c s =>
      rw [cons_append, isPrefixOf_cons_cons, isPrefixOf_cons_cons, ih fun e he => hp e (mem_cons_of_mem d he)]

theorem numberLike_ident (hrest : Terminated rest) (hnum : numberStart s = false) (hne : s ≠ []) :
    numberLike (s ++ rest) = signedInf s := by
  have hinf : ∀ c ∈ ['i', 'n', 'f'], isNonIdentifierChar c = false := by
    simp only [forall_mem_cons, not_mem_nil, false_imp_iff, implies_true, and_true]
    decide
  cases s with
  | nil => exact absurd rfl hne
  | cons c t =>
    simp only [numberStart, Bool.or_eq_false_iff] at hnum
    obtain ⟨⟨hdigit, hdot⟩, hsign⟩ := hnum
    have hhead : t.head?.any isAsciiDigit = false → (t ++ rest).head?.any isAsciiDigit = false := by
      intro ht
      have := head_not_digit hrest ht
      cases hc : (t ++ rest).head? with
      | none => rfl
      | some d => exact this d hc
    rw [cons_append, numberLike, signedInf]
    by_cases hplus : (c = '+' || c = '-') = true
    · rw [hplus, Bool.true_and, Bool.or_eq_false_iff] at hsign
      have hsecond : ((t ++ rest).head? = some '.' && (t ++ rest)[1]?.any isAsciiDigit) = false := by
        cases t with
        | nil =>
          cases rest with
          | nil => rfl
          | cons d rest => simp [(not_word (hrest d rfl)).2.2]
        | cons d t =>
          by_cases hd : d = '.'
          · subst hd
            have ht : t.head?.any isAsciiDigit = false := by
              rw [head?_eq_getElem?]
              simpa using hsign.2
            have := head_not_digit hrest ht
            simp only [cons_append, getElem?_cons_succ]
            rw [← head?_eq_getElem?]
            cases hc : (t ++ rest).head? with
            | none => rfl
            | some e => exact this e hc
          · simp [hd]
      rw [if_pos hplus, hhead hsign.1, hsecond, Bool.or_self, Bool.false_or, isPrefixOf_terminated hrest hinf]
      obtain rfl | rfl : c = '+' ∨ c = '-' := by simpa using hplus
      · simp
      · simp
    · rw [if_neg hplus]
      have hp : c ≠ '+' ∧ c ≠ '-' := by simpa using hplus
      have hinfs : (['+', 'i', 'n', 'f'].isPrefixOf (c :: t) || ['-', 'i', 'n', 'f'].isPrefixOf (c :: t)) = false := by
        simp [isPrefixOf_cons_cons, Ne.symm hp.1, Ne.symm hp.2]
      rw [hinfs]
      by_cases hc : c = '.'
      · rw [if_pos hc]
        exact hhead (by simpa [hc] using hdot)
      · rw [if_neg hc, hdigit]

theorem parseNumber_inf (hinf : signedInf s = true) (h : At src i (s ++ rest)) :
    ∃ e j, parseNumber src i = .error (.error e) j := by
  obtain ⟨sign, t, hsign, rfl⟩ : ∃ sign t, (sign = '+' ∨ sign = '-') ∧ s = sign :: 'i' :: 'n' :: 'f' :: t := by
    rw [signedInf, Bool.or_eq_true, isPrefixOf_iff_prefix, isPrefixOf_iff_prefix] at hinf
    obtain ⟨t, rfl⟩ | ⟨t, rfl⟩ := hinf
    · exact ⟨'+', t, Or.inl rfl, rfl⟩
    · exact ⟨'-', t, Or.inr rfl, rfl⟩
  have hlt : sign.toNat < 128 := by obtain rfl | rfl := hsign <;> decide
  have htail := h.tail
  rw [utf8Size_ascii hlt] at htail
  have hdigits : consumeDigitsUnderscores src isAsciiDigit (i + 1) = .ok () (i + 1) := by
    have hround : digitsRound src isAsciiDigit ⟨false, false⟩ (i + 1) = .ok (.done ()) (i + 1) := by
      rw [digitsRound, bind_step (peekChar_run htail)]
      rfl
    rw [consumeDigitsUnderscores, Source.rounds, loop, bind_step hround]
    rfl
  have hdecimal : ∀ negative, ∃ e j, parseDecimal src i true negative i = .error (.error e) j := by
    intro negative
    have hbump : bumpByteIf src true i = .ok () (i + 1) := by
      exact bumpByte_run h hlt
    rw [parseDecimal, bind_step hbump, bind_step (get_run _), bind_step hdigits, bind_step (get_run _), if_pos rfl]
    exact ⟨_, _, rfl⟩
  rw [parseNumber, bind_step (get_run i), bind_step (remaining_run h)]
  obtain rfl | rfl := hsign
  · simpa using hdecimal false
  · simpa using hdecimal true

/-- Nothing of a value stands ahead of an identifier but, to the reader, a number. -/
theorem parseValue_ident (hbare : isBareIdent s = true) (hrest : Terminated rest) (h : At src i (s ++ rest)) :
    parseValueAfterType src i = if signedInf s then parseNumber src i else .ok (.string s) (i + size s) := by
  have hrun := parseStringValue_run hbare hrest h
  obtain ⟨c, t, rfl, -, hnum, hs⟩ := isBareIdent_cons hbare
  have hc := hs c (mem_cons_self ..)
  have hlike := numberLike_ident hrest hnum (cons_ne_nil c t)
  rw [cons_append] at h
  have hstarts : startsNumber src c i = .ok (signedInf (c :: t)) i := by
    rw [startsNumber]
    split
    · rw [looksLikeNumber, bind_step (remaining_run h), ← cons_append, hlike, pure_run]
    · next hno =>
      simp only [Bool.or_eq_true, decide_eq_true_eq, not_or] at hno
      rw [pure_run, signedInf]
      simp [isPrefixOf_cons_cons, Ne.symm hno.1.1.1, Ne.symm hno.1.1.2]
  rw [parseValueAfterType, bind_step (eof_run h), if_neg (by simp), bind_step (peekByte_run h),
    if_neg (ident_head hc (by decide) (by decide)), if_neg (ident_head hc (by decide) (by decide)),
    bind_step (peekChar_run h)]
  simp only [head?_cons]
  rw [bind_step hstarts]
  split
  · rfl
  · rw [bind_step hrun, pure_run]

theorem noType_run (hc : isNonIdentifierChar c = false) (h : At src i (c :: t)) :
    tryParseTypeAnnotation src i = .ok none i := by
  rw [ tryParseTypeAnnotation, bind_step (skipNodeSpace_solid h (solid_of_ident hc)), bind_step (peekByte_run h),
    if_pos (ident_head hc (by decide) (by decide)), pure_run]

/-- A text in the places a writer puts one: a node name, a value, an entry, of
which it is the key where `=` follows, and a type in its parentheses. -/
def ReadsAsName (s : Str) : Prop :=
  ∀ src i rest, Terminated rest → At src i (s ++ rest) → parseNodeHeader src i = .ok (none, s) (i + size s)

def ReadsAsValue (s : Str) : Prop :=
  ∀ src i rest, Terminated rest → At src i (s ++ rest) → parseValueAfterType src i = .ok (.string s) (i + size s)

def ReadsAsEntry (s : Str) : Prop :=
  ∀ src i rest, Terminated rest → At src i (s ++ rest) →
    parsePropOrArg src i = afterEntryString src none i s (i + size s)

def ReadsAsType (s : Str) : Prop :=
  ∀ src i rest, At src i ('(' :: (s ++ ')' :: rest)) →
    tryParseTypeAnnotation src i = .ok (some s) (i + (size s + 2))

section

variable (hbare : isBareIdent s = true)
include hbare

theorem readsAsName : ReadsAsName s := by
  intro src i rest hrest h
  have hrun := parseStringValue_run hbare hrest h
  obtain ⟨c, t, rfl, -, -, hs⟩ := isBareIdent_cons hbare
  have hc := hs c (mem_cons_self ..)
  have hname : mapError expectNodeName (parseStringValue src) i = .ok (c :: t) (i + size (c :: t)) := by
    rw [mapError, hrun]
  rw [parseNodeHeader, bind_step (noType_run hc h), bind_step (skipNodeSpace_solid h (solid_of_ident hc)),
    bind_step hname, pure_run]

theorem readsAsType : ReadsAsType s := by
  intro src i rest h
  have hclose : Terminated (')' :: rest) := by
    intro c hc
    obtain rfl : ')' = c := by simpa using hc
    decide
  have htail := h.tail
  rw [utf8Size_ascii (by decide)] at htail
  have hrun := parseStringValue_run hbare hclose htail
  have hend := htail.append s
  obtain ⟨c, t, rfl, -, -, hs⟩ := isBareIdent_cons hbare
  have hopen : (encode ('(' :: (c :: t ++ ')' :: rest))).head? = some '('.toUInt8 := (head?_encode (by decide)).mpr rfl
  have hcloses : (encode (')' :: rest)).head? = some ')'.toUInt8 := (head?_encode (by decide)).mpr rfl
  rw [ tryParseTypeAnnotation, bind_step (skipNodeSpace_solid h ⟨by decide, by decide, by decide⟩),
    bind_step (peekByte_run h), if_neg (by rw [hopen]; simp), bind_step (bumpByte_run h (by decide)),
    bind_step (skipNodeSpace_solid htail (solid_of_ident (hs c (mem_cons_self ..)))), bind_step hrun,
    bind_step (skipNodeSpace_solid hend ⟨by decide, by decide, by decide⟩), bind_step (peekByte_run hend),
    if_neg (by rw [hcloses]; simp), bind_step (bumpByte_run hend (by decide)), pure_run]
  congr 1
  omega

theorem atValue_ident (hrest : Terminated rest) (h : At src i (s ++ rest)) :
    atValueKeywordOrNumber src i = .ok (signedInf s) i := by
  obtain ⟨c, t, rfl, -, hnum, hs⟩ := isBareIdent_cons hbare
  have hc := hs c (mem_cons_self ..)
  have hlike := numberLike_ident hrest hnum (cons_ne_nil c t)
  rw [cons_append] at h
  have hof : ∀ b : UInt8, b.toNat < 128 → (encode (c :: (t ++ rest))).head? = some b → c = Char.ofNat b.toNat := by
    intro b hb hhead
    have := (head?_encode hb).mp hhead
    rwa [head?_cons, Option.some_inj] at this
  have hhash : (encode (c :: (t ++ rest))).head? ≠ some '#'.toUInt8 := ident_head hc (by decide) (by decide)
  rw [atValueKeywordOrNumber, bind_step (peekByte_run h)]
  cases hb : (encode (c :: (t ++ rest))).head? with
  | none => exact absurd (head?_eq_none_iff.mp hb) (by simp)
  | some b =>
    rw [hb] at hof hhash
    have hdigit : Bytes.isDigit b = false := by
      by_contra hd
      simp only [Bytes.isDigit, Bool.not_eq_false, Bool.and_eq_true, decide_eq_true_eq] at hd
      have hlo : 48 ≤ b.toNat := hd.1
      have hhi : b.toNat ≤ 57 := hd.2
      have hnat : c.toNat = b.toNat := by
        rw [hof b (by omega) rfl, Char.ofNat, dif_pos (Or.inl (by omega))]
        rfl
      simp only [numberStart, Bool.or_eq_false_iff] at hnum
      rw [isAsciiDigit_iff.mpr (by omega)] at hnum
      cases hnum.1.1
    have hne : b ≠ '#'.toUInt8 := fun hb => hhash (by rw [hb])
    simp only [hdigit, hne, decide_false, Bool.or_self, Bool.false_eq_true, if_false]
    split
    next => rw [looksLikeNumber, bind_step (remaining_run h), ← cons_append, hlike, pure_run]
    next hno =>
      simp only [Bool.or_eq_true, decide_eq_true_eq, not_or] at hno
      have hsign : ∀ d : Char, d.toNat < 128 → b ≠ d.toUInt8 → d ≠ c := by
        rintro d hd hbd rfl
        rw [encode_cons, encodeChar_ascii hd, singleton_append, head?_cons, Option.some_inj] at hb
        exact hbd hb.symm
      rw [pure_run, signedInf]
      simp [isPrefixOf_cons_cons, hsign '+' (by decide) hno.1.1, hsign '-' (by decide) hno.1.2]

theorem readsAsEntry (hinf : signedInf s = false) : ReadsAsEntry s := by
  intro src i rest hrest h
  have hrun := parseStringValue_run hbare hrest h
  have hvalue := atValue_ident hbare hrest h
  rw [hinf] at hvalue
  obtain ⟨c, t, rfl, -, -, hs⟩ := isBareIdent_cons hbare
  have hc := hs c (mem_cons_self ..)
  have hattempt : attempt (parseStringValue src) i = .ok (some (c :: t)) (i + size (c :: t)) := by
    rw [attempt, hrun]
  rw [parsePropOrArg, bind_step (get_run i), bind_step (noType_run hc h),
    bind_step (skipNodeSpace_solid h (solid_of_ident hc)), bind_step hvalue, if_neg Bool.false_ne_true,
    bind_step (get_run i), bind_step hattempt]

theorem readsAsValue_iff : ReadsAsValue s ↔ signedInf s = false := by
  refine ⟨fun hread => ?_, fun hinf src i rest hrest h => ?_⟩
  · by_contra hinf
    have hat := At.start ⟨s ++ [], false, 0, 0, 0⟩
    have hrest : Terminated [] := by simp [Terminated]
    obtain ⟨e, j, herr⟩ := parseNumber_inf (by simpa using hinf) hat
    have := hread _ _ _ hrest hat
    rw [parseValue_ident hbare hrest hat, if_pos (by simpa using hinf), herr] at this
    cases this
  · rw [parseValue_ident hbare hrest h, hinf, if_neg Bool.false_ne_true]

end

/-- What the writer leaves bare is read back as itself wherever it stands, but for
a text that starts with a signed `inf`: as a value or a key it is a broken number. -/
theorem bareIdent_reads_iff (hbare : isBareIdent s = true) :
    (ReadsAsName s ∧ ReadsAsType s ∧ ReadsAsValue s ∧ ReadsAsEntry s) ↔
      ¬ (['+', 'i', 'n', 'f'] <+: s ∨ ['-', 'i', 'n', 'f'] <+: s) := by
  have hsigned : (['+', 'i', 'n', 'f'] <+: s ∨ ['-', 'i', 'n', 'f'] <+: s) ↔ signedInf s = true := by
    rw [signedInf, Bool.or_eq_true, isPrefixOf_iff_prefix, isPrefixOf_iff_prefix]
  rw [hsigned, Bool.not_eq_true]
  exact ⟨fun h => (readsAsValue_iff hbare).mp h.2.2.1,
    fun hinf => ⟨readsAsName hbare, readsAsType hbare, (readsAsValue_iff hbare).mpr hinf, readsAsEntry hbare hinf⟩⟩

theorem bareIdent_reads_plain :
    ReadsAsName ['-', '.', 'a'] ∧ ReadsAsType ['-', '.', 'a'] ∧ ReadsAsValue ['-', '.', 'a'] ∧
      ReadsAsEntry ['-', '.', 'a'] :=
  (bareIdent_reads_iff (by decide)).mpr (by decide)

theorem plusInf_rejected : isBareIdent ['+', 'i', 'n', 'f'] = true ∧ ¬ ReadsAsValue ['+', 'i', 'n', 'f'] := by
  refine ⟨by decide, fun h => ?_⟩
  have := (readsAsValue_iff (by decide)).mp h
  exact absurd this (by decide)

end Positions

end TensorDE.Kdl
