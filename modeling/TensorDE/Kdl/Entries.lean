import TensorDE.Kdl.Strings

set_option linter.dupNamespace false

namespace TensorDE.Kdl

open Effect Utf8

variable (src : Source)

section Number

structure DigitRun where
  lastUnderscore : Bool
  sawDigit : Bool

variable (isDigit : Char → Bool)

def digitsRound (run : DigitRun) : Lex (Round DigitRun Unit) := do
  match ← peekChar src with
  | some c =>
    if c = '_' then
      if !run.sawDigit || run.lastUnderscore then pure (.done ())
      else do
        let _ ← bumpChar src
        pure (.again ⟨true, run.sawDigit⟩)
    else if isDigit c then do
      let _ ← bumpChar src
      pure (.again ⟨false, true⟩)
    else pure (.done ())
  | none => pure (.done ())

def consumeDigitsUnderscores : Lex Unit :=
  loop (digitsRound src isDigit) src.rounds ⟨false, false⟩

variable (start : Nat)

def rejectNumberTrailer : Lex Unit := do
  match ← peekChar src with
  | some c =>
    if isAsciiAlphanumeric c || c = '_' || c = '.' then
      fail ((← errAt src .invalidNumber start).withMessage "invalid character in number")
    else pure ()
  | none => pure ()

/-- `i128::from_str_radix` and `str::parse`, on digits that are known to be digits. -/
def parseI128 (base : Nat) (negative : Bool) (digits : Str) : Option Int :=
  let n : Int := if negative then -digitsValue base digits else digitsValue base digits
  if -2 ^ 127 ≤ n ∧ n < 2 ^ 127 then some n else none

/-- A literal with a radix mark. The digits are read without their sign. -/
def parseRadix (start signLen : Nat) (negative : Bool) (base : Nat) (isDigit : Char → Bool) : Lex Value := do
  advance (signLen + 2)
  let numStart ← get
  consumeDigitsUnderscores src isDigit
  let index ← get
  if index = numStart then fail (← errAt src .invalidNumber start)
  else do
    rejectNumberTrailer src start
    let digits ← inputSlice src numStart index
    match parseI128 base false (digits.filter (· ≠ '_')) with
    | none => fail (← errAt src .invalidNumber start)
    | some val => pure (.int (if negative then -val else val))

/-- What is made of a dot at `index` with the byte `after` it: whether it starts a fraction. -/
def fractionAfter (start index : Nat) (after : Option UInt8) : Lex Bool := do
  if after = some '_'.toUInt8 then
    fail ((← errAt src .invalidNumber index).withMessage "underscore cannot start a fraction")
  else if after.any Bytes.isDigit then do
    bumpByte src
    let fracStart ← get
    consumeDigitsUnderscores src isAsciiDigit
    let index ← get
    if index = fracStart then fail (← errAt src .invalidNumber start) else pure true
  else if after = some 'e'.toUInt8 ∨ after = some 'E'.toUInt8 ∨ after = none then
    fail ((← errAt src .invalidNumber index).withMessage "expected fraction digits after `.`")
  else pure false

/-- The fraction, if there is one. The byte behind the dot may be one of the padding. -/
def parseFraction : Lex Bool := do
  if (← peekByte src) = some '.'.toUInt8 then do
    let index ← get
    fractionAfter src start index src.bytes[index + 1]?
  else pure false

def parseExponent : Lex Bool := do
  let mark ← peekByte src
  if mark = some 'e'.toUInt8 ∨ mark = some 'E'.toUInt8 then do
    bumpByte src
    let sign ← peekByte src
    bumpByteIf src (sign = some '+'.toUInt8 ∨ sign = some '-'.toUInt8)
    if (← peekByte src) = some '_'.toUInt8 then
      fail ((← errAt src .invalidNumber (← get)).withMessage "underscore cannot start an exponent")
    else do
      let expStart ← get
      consumeDigitsUnderscores src isAsciiDigit
      let index ← get
      if index = expStart then fail (← errAt src .invalidNumber start) else pure true
  else pure false

def parseDecimal (signed negative : Bool) : Lex Value := do
  bumpByteIf src signed
  let intStart ← get
  consumeDigitsUnderscores src isAsciiDigit
  let index ← get
  if index = intStart then
    fail ((← errAt src .invalidNumber start).withMessage "number requires an integer digit before optional fraction")
  else do
    let hasFraction ← parseFraction src start
    let hasExponent ← parseExponent src start
    rejectNumberTrailer src start
    let lex ← inputSlice src start (← get)
    if hasFraction || hasExponent then pure (.float (.nearest (lex.filter (· ≠ '_'))) (some lex))
    else
      match parseI128 10 negative ((lex.filter (· ≠ '_')).drop signed.toNat) with
      | none => fail (← errAt src .invalidNumber start)
      | some v => pure (.int v)

def parseNumber : Lex Value := do
  let start ← get
  let s ← remaining src
  let signed := s.head? = some '+' || s.head? = some '-'
  let negative : Bool := s.head? = some '-'
  let rest := s.drop signed.toNat
  if ['0', 'x'].isPrefixOf rest || ['0', 'X'].isPrefixOf rest then
    parseRadix src start signed.toNat negative 16 isAsciiHexdigit
  else if ['0', 'o'].isPrefixOf rest || ['0', 'O'].isPrefixOf rest then
    parseRadix src start signed.toNat negative 8 fun c => '0' ≤ c && c ≤ '7'
  else if ['0', 'b'].isPrefixOf rest || ['0', 'B'].isPrefixOf rest then
    parseRadix src start signed.toNat negative 2 fun c => c = '0' || c = '1'
  else parseDecimal src start signed negative

/-- `looks_like_number` on the remaining text. -/
def numberLike : Str → Bool
  | [] => false
  | c :: rest =>
    if c = '+' || c = '-' then
      rest.head?.any isAsciiDigit || rest.head? = some '.' && rest[1]?.any isAsciiDigit ||
        ['i', 'n', 'f'].isPrefixOf rest
    else if c = '.' then rest.head?.any isAsciiDigit
    else isAsciiDigit c

def looksLikeNumber : Lex Bool := do
  let rest ← remaining src
  pure (numberLike rest)

def atValueKeywordOrNumber : Lex Bool := do
  match ← peekByte src with
  | none => pure false
  | some b =>
    if b = '#'.toUInt8 || Bytes.isDigit b then pure true
    else if b = '+'.toUInt8 || b = '-'.toUInt8 || b = '.'.toUInt8 then looksLikeNumber src
    else pure false

end Number

def hashKeywords : List (Str × Value) :=
  [(['#', 't', 'r', 'u', 'e'], .bool true), (['#', 'f', 'a', 'l', 's', 'e'], .bool false),
    (['#', 'n', 'u', 'l', 'l'], .null), (['#', 'i', 'n', 'f'], .float .infinity none),
    (['#', '-', 'i', 'n', 'f'], .float .negInfinity none), (['#', 'n', 'a', 'n'], .float .nan none)]

def endsKeyword (after : Str) : Bool :=
  after.head?.all fun c => isUnicodeSpace c || isNewlineChar c || c ∈ ['\\', '/', '(', ')', '{', '}', ';', '=', '[']

def hashKeyword (rest : Str) : Option (Str × Value) :=
  hashKeywords.find? fun kw => kw.1.isPrefixOf rest && endsKeyword (rest.drop kw.1.length)

def parseHashKeywordOrRawString : Lex Value := do
  let rest ← remaining src
  match hashKeyword rest with
  | some (keyword, value) => do
    advance keyword.length
    pure value
  | none => do
    let s ← parseRawString src
    pure (.string s)

/-- A sign, a dot or a digit may start a number, but also a name. -/
def startsNumber (c : Char) : Lex Bool :=
  if c = '+' || c = '-' || c = '.' || isAsciiDigit c then looksLikeNumber src else pure false

def parseValueAfterType : Lex Value := do
  if ← eof src then fail ((← err src .expectedValue).withExpected "value")
  else
    let b ← peekByte src
    if b = some '#'.toUInt8 then parseHashKeywordOrRawString src
    else if b = some '"'.toUInt8 then do
      let s ← parseQuotedString src
      pure (.string s)
    else
      match ← peekChar src with
      | none => fail (← err src .expectedValue)
      | some c => do
        if ← startsNumber src c then parseNumber src
        else do
          let s ← parseStringValue src
          pure (.string s)

def tryParseTypeAnnotation : Lex (Option Str) := do
  skipNodeSpace src
  if (← peekByte src) ≠ some '('.toUInt8 then pure none
  else do
    bumpByte src
    skipNodeSpace src
    let name ← parseStringValue src
    skipNodeSpace src
    if (← peekByte src) ≠ some ')'.toUInt8 then
      fail (((← err src .syntaxError).withMessage "unclosed type annotation").withExpected "`)`")
    else do
      bumpByte src
      pure (some name)

def parseTypedValue : Lex (Option Str × Value) := do
  let typeName ← tryParseTypeAnnotation src
  skipNodeSpace src
  let value ← parseValueAfterType src
  pure (typeName, value)

def parseValue : Lex Value := do
  let _ ← tryParseTypeAnnotation src
  skipNodeSpace src
  parseValueAfterType src

/-- A failed attempt: the caller looks at the outcome and goes on from the index it left. -/
def attempt {α : Type} (x : Lex α) : Lex (Option α) := fun index =>
  match x index with
  | .ok a next => .ok (some a) next
  | .error (.error _) next => .ok none next
  | .error e next => .error e next

/-- What follows the string of an entry: a property value behind `=`, or nothing. -/
def afterEntryString (typeName : Option Str) (stringStart : Nat) (s : Str) : Lex Entry := do
  let afterString ← get
  skipNodeSpace src
  if (← peekByte src) = some '='.toUInt8 then do
    bumpByte src
    skipNodeSpace src
    let (valueType, value) ← parseTypedValue src
    if typeName.isSome then
      fail ((← errAt src .syntaxError stringStart).withMessage
        "type annotation belongs on the property value, not the key")
    else pure (.property s valueType value)
  else do
    set afterString
    pure (.argument typeName (.string s))

def parsePropOrArg : Lex Entry := do
  let saved ← get
  let typeName ← tryParseTypeAnnotation src
  skipNodeSpace src
  if ← atValueKeywordOrNumber src then do
    let value ← parseValueAfterType src
    pure (.argument typeName value)
  else do
    let stringStart ← get
    match ← attempt (parseStringValue src) with
    | some s => afterEntryString src typeName stringStart s
    | none => do
      set saved
      let value ← parseValue src
      pure (.argument typeName value)

def skipPropOrArg : Lex Unit := do
  let _ ← parsePropOrArg src
  pure ()

def expectNodeName (e : ErrorCtx) : ErrorCtx :=
  if e.code = .unexpectedEof ∨ e.code = .invalidIdent then e.withExpected "node name" else e

def parseNodeHeader : Lex (Option Str × Str) := do
  let typeName ← tryParseTypeAnnotation src
  skipNodeSpace src
  let name ← mapError expectNodeName (parseStringValue src)
  pure (typeName, name)

def consumeVersion : Lex Bool := do
  if ← consumeExact src ['2'] then pure true else consumeExact src ['1']

/-- The optional version marker at document start, a slashdash with `kdl-version` 1 or 2. -/
def skipVersionMarker : Lex Unit := do
  skipLineSpace src
  let saved ← get
  if ← consumeExact src ['/', '-'] then do
    skipNodeSpace src
    if ← consumeExact src ['k', 'd', 'l', '-', 'v', 'e', 'r', 's', 'i', 'o', 'n'] then do
      skipNodeSpace src
      if ← consumeVersion src then do
        skipWsOnly src
        if ← eof src then pure ()
        else if ← consumeNewline src then pure ()
        else if ← startsWith src ['/', '/'] then skipLineComment src
        else fail ((← err src .syntaxError).withMessage "kdl-version marker must end with a newline")
      else
        fail (((← err src .syntaxError).withMessage "kdl-version requires 1 or 2").withExpected "1 or 2")
    else set saved
  else pure ()

end TensorDE.Kdl
