import TensorDE.Kdl.StringBounds
import TensorDE.Kdl.Entries

set_option linter.dupNamespace false

namespace TensorDE.Kdl

open Effect Utf8 List

variable {src : Source} {i j start : Nat} {rest : Str} {c : Char}

section Number

variable (isDigit : Char → Bool)

theorem digitsRound_moves (run : DigitRun) (h : OnBoundary src j) (hi : i ≤ j) :
    Moves src i (Round.Meets (fun _ k => j < k) Any) (digitsRound src isDigit run j) := by
  obtain ⟨rest, h⟩ := h
  refine .step (peekChar_run h) ?_
  cases rest with
  | nil => exact .ok hi h.boundary trivial
  | cons c rest =>
    have hlt := h.lt_tail
    dsimp only [head?_cons]
    split
    · split
      · exact .ok hi h.boundary trivial
      · refine .step (bumpChar_cons h) ?_
        exact .ok (by omega) hlt.2 hlt.1
    · split
      · refine .step (bumpChar_cons h) ?_
        exact .ok (by omega) hlt.2 hlt.1
      · exact .ok hi h.boundary trivial

theorem consumeDigitsUnderscores_moves (h : OnBoundary src j) (hi : i ≤ j) :
    Moves src i (fun _ k => j ≤ k) (consumeDigitsUnderscores src isDigit j) := by
  have hscan : Moves src j Any (consumeDigitsUnderscores src isDigit j) :=
    Moves.scan (fun run _ hl hbl => digitsRound_moves isDigit run hbl hl) ⟨false, false⟩ le_rfl h
  exact hscan.mono hi fun _ _ hl _ _ => hl

theorem rejectNumberTrailer_moves (start : Nat) (h : OnBoundary src j) (hi : i ≤ j) :
    Moves src i (fun _ k => k = j) (rejectNumberTrailer src start j) := by
  obtain ⟨rest, h⟩ := h
  refine .step (peekChar_run h) ?_
  cases rest with
  | nil => exact .ok hi h.boundary rfl
  | cons c rest =>
    dsimp only [head?_cons]
    split
    · exact .fail hi h.boundary
    · exact .ok hi h.boundary rfl

variable {negative : Bool}

theorem parseRadix_moves {signLen base : Nat} (h : OnBoundary src (i + (signLen + 2))) :
    Moves src i (Past i) (parseRadix src start signLen negative base isDigit i) := by
  refine .step (modify_run _ i) (.step (get_run _) ?_)
  refine (consumeDigitsUnderscores_moves isDigit h (by omega)).bind fun _ k hk hb hle => ?_
  refine .step (get_run k) ?_
  split
  · exact .fail hk hb
  · refine (rejectNumberTrailer_moves start hb hk).bind fun _ l hl hbl hkl => ?_
    obtain rfl := hkl
    obtain ⟨after, hafter⟩ := h
    obtain ⟨post, hpost⟩ := hbl
    obtain ⟨digits, -, -, hslice⟩ := inputSlice_run hafter hpost hle
    refine .step (hslice l) ?_
    cases parseI128 base false (digits.filter (· ≠ '_')) with
    | none => exact .fail hl hpost.boundary
    | some val => exact .ok hl hpost.boundary (show i < l by omega)

theorem fractionAfter_moves (start : Nat) (after : Option UInt8) (h : At src j rest)
    (hdot : (encode rest).head? = some '.'.toUInt8) (hi : i ≤ j) :
    Moves src i (fun _ k => j ≤ k) (fractionAfter src start j after j) := by
  rw [fractionAfter]
  split
  · exact .fail hi h.boundary
  · split
    · refine (bumpByte_moves h (by decide) hdot hi).bind fun _ k hk hb hjk => ?_
      refine .step (get_run k) ?_
      refine (consumeDigitsUnderscores_moves isAsciiDigit hb hk).bind fun _ l hl hbl hkl => ?_
      refine .step (get_run l) ?_
      split
      · exact .fail hl hbl
      · exact .ok hl hbl (show j ≤ l by omega)
    · split
      · exact .fail hi h.boundary
      · exact .ok hi h.boundary le_rfl

theorem parseFraction_moves (start : Nat) (h : OnBoundary src j) (hi : i ≤ j) :
    Moves src i (fun _ k => j ≤ k) (parseFraction src start j) := by
  obtain ⟨rest, h⟩ := h
  refine .step (peekByte_run h) ?_
  split
  · rename_i hdot
    refine .step (get_run j) ?_
    exact fractionAfter_moves start _ h hdot hi
  · exact .ok hi h.boundary le_rfl

theorem bumpSign_moves (h : OnBoundary src j) (hi : i ≤ j) {sign : Option UInt8} (hsign : peekByte src j = .ok sign j) :
    Moves src i (fun _ k => j ≤ k) (bumpByteIf src (sign = some '+'.toUInt8 ∨ sign = some '-'.toUInt8) j) := by
  obtain ⟨rest, h⟩ := h
  rw [peekByte_run h] at hsign
  obtain rfl : (encode rest).head? = sign := by simpa using hsign
  by_cases hplus : (encode rest).head? = some '+'.toUInt8
  · exact bumpByteIf_moves h (by decide) (fun _ => hplus) hi
  · refine bumpByteIf_moves h (c := '-') (by decide) (fun h => ?_) hi
    simpa [hplus] using h

theorem parseExponent_moves (start : Nat) (h : OnBoundary src j) (hi : i ≤ j) :
    Moves src i (fun _ k => j ≤ k) (parseExponent src start j) := by
  obtain ⟨rest, h⟩ := h
  refine .step (peekByte_run h) ?_
  split
  · rename_i hmark
    have hbump : Moves src i (Past j) (bumpByte src j) := by
      obtain hmark | hmark := hmark
      · exact bumpByte_moves h (by decide) hmark hi
      · exact bumpByte_moves h (by decide) hmark hi
    refine hbump.bind fun _ k hk hb hjk => ?_
    obtain ⟨rest', h'⟩ := hb
    refine .step (peekByte_run h') ?_
    refine (bumpSign_moves h'.boundary hk (peekByte_run h')).bind fun _ l hl hbl hkl => ?_
    obtain ⟨rest'', h''⟩ := hbl
    refine .step (peekByte_run h'') ?_
    split
    · exact .fail hl h''.boundary
    · refine .step (get_run l) ?_
      refine (consumeDigitsUnderscores_moves isAsciiDigit h''.boundary hl).bind fun _ m hm hbm hlm => ?_
      refine .step (get_run m) ?_
      split
      · exact .fail hm hbm
      · exact .ok hm hbm (show j ≤ m by grind)
  · exact .ok hi h.boundary le_rfl

variable {signed : Bool}

theorem parseDecimal_moves (h : At src i rest)
    (hsigned : signed = true → rest.head? = some '+' ∨ rest.head? = some '-') :
    Moves src i (Past i) (parseDecimal src i signed negative i) := by
  have hsign : Moves src i Any (bumpByteIf src signed i) := by
    cases signed with
    | false => exact .ok le_rfl h.boundary trivial
    | true =>
      cases rest with
      | nil => simp at hsigned
      | cons c rest =>
        have hc : c = '+' ∨ c = '-' := by simpa using hsigned
        have hc128 : c.toNat < 128 := by
          obtain rfl | rfl := hc <;> decide
        have htail := h.tail
        rw [utf8Size_ascii hc128] at htail
        rw [bumpByteIf, if_pos rfl, bumpByte_run h hc128]
        exact .ok (Nat.le_succ i) htail.boundary trivial
  refine hsign.bind fun _ j hj hbj _ => ?_
  refine .step (get_run j) ?_
  refine (consumeDigitsUnderscores_moves isAsciiDigit hbj hj).bind fun _ k hk hbk hjk => ?_
  refine .step (get_run k) ?_
  split
  · exact .fail hk hbk
  · refine (parseFraction_moves i hbk hk).bind fun _ l hl hbl hkl => ?_
    refine (parseExponent_moves i hbl hl).bind fun _ m hm hbm hlm => ?_
    refine (rejectNumberTrailer_moves i hbm hm).bind fun _ n hn hbn hmn => ?_
    obtain ⟨post, hpost⟩ := hbn
    have hpast : i < n := by
      omega
    obtain ⟨text, -, -, hslice⟩ := inputSlice_run h hpost hpast.le
    refine .step (get_run n) (.step (hslice n) ?_)
    split
    · exact .ok hn hpost.boundary hpast
    · cases parseI128 10 negative ((text.filter (· ≠ '_')).drop signed.toNat) with
      | none => exact .fail hn hpost.boundary
      | some v => exact .ok hn hpost.boundary hpast

theorem At.radix {mark : Char} (h : At src i rest) (hmark : mark.toNat < 128)
    (hsigned : signed = true → rest.head? = some '+' ∨ rest.head? = some '-')
    (hpre : ['0', mark].isPrefixOf (rest.drop signed.toNat) = true) : OnBoundary src (i + (signed.toNat + 2)) := by
  obtain ⟨post, hpost⟩ := isPrefixOf_iff_prefix.mp hpre
  have hsize : size ['0', mark] = 2 := by
    rw [size_cons, size_cons, utf8Size_ascii hmark]
    rfl
  cases signed with
  | false =>
    have hat : At src i (['0', mark] ++ post) := by
      rw [hpost]
      exact h
    have := (hat.append _).boundary
    rwa [hsize] at this
  | true =>
    cases rest with
    | nil => simp at hsigned
    | cons c rest =>
      have hc : c = '+' ∨ c = '-' := by simpa using hsigned
      have hc128 : c.toNat < 128 := by
        obtain rfl | rfl := hc <;> decide
      have htail := h.tail
      rw [utf8Size_ascii hc128] at htail
      have hat : At src (i + 1) (['0', mark] ++ post) := by
        rw [hpost]
        exact htail
      have := (hat.append _).boundary
      rwa [hsize, Nat.add_assoc] at this

theorem parseNumber_moves (h : OnBoundary src i) : Moves src i (Past i) (parseNumber src i) := by
  obtain ⟨rest, h⟩ := h
  refine .step (get_run i) (.step (remaining_run h) ?_)
  have hsigned : (decide (rest.head? = some '+') || decide (rest.head? = some '-')) = true →
      rest.head? = some '+' ∨ rest.head? = some '-' := by simp
  split
  · rename_i hpre
    rw [Bool.or_eq_true] at hpre
    refine parseRadix_moves _ ?_
    obtain hpre | hpre := hpre
    · exact h.radix (by decide) hsigned hpre
    · exact h.radix (by decide) hsigned hpre
  · split
    · rename_i hpre
      rw [Bool.or_eq_true] at hpre
      refine parseRadix_moves _ ?_
      obtain hpre | hpre := hpre
      · exact h.radix (by decide) hsigned hpre
      · exact h.radix (by decide) hsigned hpre
    · split
      · rename_i hpre
        rw [Bool.or_eq_true] at hpre
        refine parseRadix_moves _ ?_
        obtain hpre | hpre := hpre
        · exact h.radix (by decide) hsigned hpre
        · exact h.radix (by decide) hsigned hpre
      · exact parseDecimal_moves h hsigned

end Number

theorem looksLikeNumber_run (h : At src i rest) : looksLikeNumber src i = .ok (numberLike rest) i := by
  simp [looksLikeNumber, remaining_run h]

theorem atValueKeywordOrNumber_moves (h : At src j rest) (hi : i ≤ j) :
    Moves src i (fun _ k => k = j) (atValueKeywordOrNumber src j) := by
  refine .step (peekByte_run h) ?_
  cases (encode rest).head? with
  | none => exact .ok hi h.boundary rfl
  | some b =>
    dsimp only
    split
    · exact .ok hi h.boundary rfl
    · split
      · rw [looksLikeNumber_run h]
        exact .ok hi h.boundary rfl
      · exact .ok hi h.boundary rfl

theorem parseHashKeywordOrRawString_moves (h : OnBoundary src i) :
    Moves src i (Past i) (parseHashKeywordOrRawString src i) := by
  obtain ⟨rest, h⟩ := h
  refine .step (remaining_run h) ?_
  cases hkw : hashKeyword rest with
  | none => exact (parseRawString_moves h.boundary).bind fun _ k hk hb hlt => .ok hk hb hlt
  | some kw =>
    obtain ⟨keyword, value⟩ := kw
    have hmem := mem_of_find?_eq_some hkw
    have hpre := find?_some hkw
    rw [Bool.and_eq_true] at hpre
    -- every keyword is ASCII: as many bytes as characters
    have hsize : size keyword = keyword.length ∧ 0 < keyword.length := by
      simp only [hashKeywords, mem_cons, not_mem_nil, or_false] at hmem
      obtain ⟨rfl, -⟩ | ⟨rfl, -⟩ | ⟨rfl, -⟩ | ⟨rfl, -⟩ | ⟨rfl, -⟩ | ⟨rfl, -⟩ := hmem <;> decide
    have hskip := h.skip hpre.1
    rw [hsize.1] at hskip
    refine .step (modify_run _ i) ?_
    exact .ok (Nat.le_add_right i _) hskip (Nat.lt_add_of_pos_right hsize.2)

theorem startsNumber_run (h : At src i rest) (c : Char) : ∃ b, startsNumber src c i = .ok b i := by
  rw [startsNumber]
  split
  · exact ⟨_, looksLikeNumber_run h⟩
  · exact ⟨_, rfl⟩

section

variable (h : OnBoundary src i)
include h

theorem parseValueAfterType_moves : Moves src i (Past i) (parseValueAfterType src i) := by
  obtain ⟨rest, h⟩ := h
  refine .step (eof_run h) ?_
  split
  · exact .fail le_rfl h.boundary
  · refine .step (peekByte_run h) ?_
    split
    · exact parseHashKeywordOrRawString_moves h.boundary
    · split
      · exact (parseQuotedString_moves h.boundary).bind fun _ k hk hb hlt => .ok hk hb hlt
      · refine .step (peekChar_run h) ?_
        cases rest with
        | nil => exact .fail le_rfl h.boundary
        | cons c rest =>
          obtain ⟨b, hb⟩ := startsNumber_run h c
          refine .step hb ?_
          split
          · exact parseNumber_moves h.boundary
          · exact (parseStringValue_moves h.boundary).bind fun _ k hk hb hlt => .ok hk hb hlt

theorem tryParseTypeAnnotation_moves : Moves src i Any ( tryParseTypeAnnotation src i) := by
  refine (skipNodeSpace_moves h).bind fun _ j hj hb _ => ?_
  obtain ⟨rest, hat⟩ := hb
  refine .step (peekByte_run hat) ?_
  split
  · exact .ok hj hat.boundary trivial
  · rename_i hopen
    refine (bumpByte_moves hat (by decide) (not_not.mp hopen) hj).bind fun _ k hk hb _ => ?_
    refine Moves.bind ((skipNodeSpace_moves hb).mono hk fun _ _ _ _ h => h) fun _ l hl hb _ => ?_
    refine Moves.bind ((parseStringValue_moves hb).mono hl fun _ _ _ _ h => h) fun name m hm hb _ => ?_
    refine Moves.bind ((skipNodeSpace_moves hb).mono hm fun _ _ _ _ h => h) fun _ n hn hb _ => ?_
    obtain ⟨rest', hat'⟩ := hb
    refine .step (peekByte_run hat') ?_
    split
    · exact .fail hn hat'.boundary
    · rename_i hclose
      refine (bumpByte_moves hat' (by decide) (not_not.mp hclose) hn).bind fun _ o ho hb _ => ?_
      exact .ok ho hb trivial

theorem parseTypedValue_moves : Moves src i (Past i) (parseTypedValue src i) := by
  refine (tryParseTypeAnnotation_moves h).bind fun _ j hj hb _ => ?_
  refine Moves.bind ((skipNodeSpace_moves hb).mono hj fun _ _ _ _ h => h) fun _ k hk hb _ => ?_
  refine Moves.bind ((parseValueAfterType_moves hb).mono hk fun _ _ _ _ h => h) fun _ l hl hb hlt => ?_
  exact .ok hl hb (show i < l by omega)

theorem parseValue_moves : Moves src i (Past i) (parseValue src i) := by
  refine (tryParseTypeAnnotation_moves h).bind fun _ j hj hb _ => ?_
  refine Moves.bind ((skipNodeSpace_moves hb).mono hj fun _ _ _ _ h => h) fun _ k hk hb _ => ?_
  exact (parseValueAfterType_moves hb).mono hk fun _ l _ _ hlt => Nat.lt_of_le_of_lt hk hlt

end

theorem attempt_moves {α : Type} {x : Lex α} {Q : α → Nat → Prop} (h : Moves src i Q (x j)) :
    Moves src i (fun o k => ∀ a, o = some a → Q a k) (attempt x j) := by
  rw [attempt]
  cases hx : x j with
  | ok a k =>
    rw [hx] at h
    exact .ok h.1.1 h.1.2 fun a' ha => Option.some.inj ha ▸ h.2
  | error e k =>
    rw [hx] at h
    cases e with
    | error e => exact .ok h.1 h.2 (by simp)
    | panic | diverge => exact h.elim

theorem afterEntryString_moves (typeName : Option Str) (stringStart : Nat) (s : Str) (h : OnBoundary src j) (hi : i ≤ j) :
    Moves src i (fun _ k => j ≤ k) (afterEntryString src typeName stringStart s j) := by
  refine .step (get_run j) ?_
  refine Moves.bind ((skipNodeSpace_moves h).mono hi fun _ k hk _ _ => hk) fun _ k hk hb hjk => ?_
  obtain ⟨rest, hat⟩ := hb
  refine .step (peekByte_run hat) ?_
  split
  · rename_i heq
    refine (bumpByte_moves hat (by decide) heq hk).bind fun _ l hl hb hkl => ?_
    refine Moves.bind ((skipNodeSpace_moves hb).mono hl fun _ m hm _ _ => hm) fun _ m hm hb hlm => ?_
    refine Moves.bind ((parseTypedValue_moves hb).mono hm fun _ _ _ _ h => h) fun ⟨valueType, value⟩ n hn hb hmn => ?_
    split
    · exact .fail hn hb
    · have hjn : j ≤ n := by
        omega
      exact .ok hn hb hjn
  · refine .step (set_run k j) ?_
    exact .ok hi h le_rfl

section

variable (h : OnBoundary src i)
include h

theorem parsePropOrArg_moves : Moves src i (Past i) (parsePropOrArg src i) := by
  refine .step (get_run i) ?_
  refine (tryParseTypeAnnotation_moves h).bind fun typeName j hj hb _ => ?_
  refine Moves.bind ((skipNodeSpace_moves hb).mono hj fun _ _ _ _ h => h) fun _ k hk hb _ => ?_
  obtain ⟨rest, hat⟩ := hb
  refine (atValueKeywordOrNumber_moves hat hk).bind fun _ l hl hb hlk => ?_
  split
  · refine Moves.bind ((parseValueAfterType_moves hb).mono hl fun _ _ _ _ h => h) fun _ m hm hb hlt => ?_
    exact .ok hm hb (show i < m by omega)
  · refine .step (get_run l) ?_
    have hstring : Moves src i (Past l) (parseStringValue src l) :=
      (parseStringValue_moves hb).mono hl fun _ _ _ _ h => h
    refine (attempt_moves hstring).bind fun o m hm hb hom => ?_
    cases o with
    | some s =>
      exact (afterEntryString_moves typeName l s hb hm).mono le_rfl fun _ n _ _ hmn => by
        grind
    | none =>
      refine .step (set_run m i) ?_
      exact (parseValue_moves h).bind fun _ n hn hb hlt => .ok hn hb hlt

theorem parseNodeHeader_moves : Moves src i (Past i) (parseNodeHeader src i) := by
  refine (tryParseTypeAnnotation_moves h).bind fun typeName j hj hb _ => ?_
  refine Moves.bind ((skipNodeSpace_moves hb).mono hj fun _ _ _ _ h => h) fun _ k hk hb _ => ?_
  have hname : Moves src i (Past k) (mapError expectNodeName (parseStringValue src) k) :=
    Returns.mapError ((parseStringValue_moves hb).mono hk fun _ _ _ _ h => h)
  refine hname.bind fun _ l hl hb hlt => ?_
  exact .ok hl hb (show i < l by omega)

theorem skipPropOrArg_moves : Moves src i (Past i) (skipPropOrArg src i) :=
  (parsePropOrArg_moves h).bind fun _ _ hk hb hlt => .ok hk hb hlt

theorem skipBom_moves : Moves src i Any (skipBom src i) := by
  obtain ⟨rest, h⟩ := h
  refine .step (startsWith_run h _) ?_
  split
  · rename_i hs
    exact .ok (Nat.le_add_right i 3) (h.skip hs) trivial
  · exact .ok le_rfl h.boundary trivial

end

theorem consumeVersion_moves (h : OnBoundary src j) (hi : i ≤ j) : Moves src i Any (consumeVersion src j) := by
  obtain ⟨rest, h⟩ := h
  refine (consumeExact_moves h hi).bind fun b k hk hb hbk => ?_
  split
  · exact .ok hk hb trivial
  · obtain ⟨rest', h'⟩ := hb
    exact (consumeExact_moves h' hk).mono le_rfl fun _ _ _ _ _ => trivial

theorem skipVersionMarker_moves (h : OnBoundary src i) : Moves src i Any (skipVersionMarker src i) := by
  refine (skipLineSpace_moves h).bind fun _ j hj hbj _ => ?_
  refine .step (get_run j) ?_
  obtain ⟨rest, hat⟩ := hbj
  refine (consumeExact_moves hat hj).bind fun b k hk hb _ => ?_
  split
  · refine Moves.bind ((skipNodeSpace_moves hb).mono hk fun _ _ _ _ h => h) fun _ l hl hb _ => ?_
    obtain ⟨rest', hat'⟩ := hb
    refine (consumeExact_moves hat' hl).bind fun b m hm hb _ => ?_
    split
    · refine Moves.bind ((skipNodeSpace_moves hb).mono hm fun _ _ _ _ h => h) fun _ n hn hb _ => ?_
      refine (consumeVersion_moves hb hn).bind fun b o ho hb _ => ?_
      split
      · refine Moves.bind ((skipWsOnly_moves hb).mono ho fun _ _ _ _ h => h) fun _ p hp hb _ => ?_
        obtain ⟨rest'', hat''⟩ := hb
        refine .step (eof_run hat'') ?_
        split
        · exact .ok hp hat''.boundary trivial
        · refine Moves.bind ((consumeNewline_moves hat'').mono hp fun _ _ _ _ h => h) fun b q hq hb _ => ?_
          split
          · exact .ok hq hb trivial
          · obtain ⟨last, hlast⟩ := hb
            refine .step (startsWith_run hlast _) ?_
            split
            · rename_i hs
              exact (skipLineComment_moves hlast hs).mono hq fun _ _ _ _ _ => trivial
            · exact .fail hq hlast.boundary
      · exact .fail ho hb
    · exact .ok hj hat.boundary trivial
  · exact .ok hk hb trivial

end TensorDE.Kdl
