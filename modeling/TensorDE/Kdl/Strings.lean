import TensorDE.Kdl.Lexer

set_option linter.dupNamespace false

namespace TensorDE.Kdl

open Effect Utf8

variable (src : Source)

section Identifier

def identRound (_ : Unit) : Lex (Round Unit Unit) := do
  match ← peekChar src with
  | some c =>
    if isNonIdentifierChar c then pure (.done ())
    else do
      let _ ← bumpChar src
      pure (.again ())
  | none => pure (.done ())

variable (start : Nat)

/-- `.` at the start of an identifier, after an optional sign: the character
behind it is taken along unless it is a digit. -/
def identAfterDot : Lex Unit := do
  let _ ← bumpChar src
  match ← peekChar src with
  | some n =>
    if isAsciiDigit n then do
      set start
      fail (← err src .invalidIdent)
    else if isNonIdentifierChar n then pure ()
    else do
      let _ ← bumpChar src
      pure ()
  | none => pure ()

def identAfterSign : Lex Unit := do
  let _ ← bumpChar src
  match ← peekChar src with
  | some n =>
    if isAsciiDigit n then do
      set start
      fail ((← err src .invalidIdent).withMessage "number-like")
    else if n = '.' then identAfterDot src start
    else if isNonIdentifierChar n then pure ()
    else do
      let _ ← bumpChar src
      pure ()
  | none => pure ()

def keywordIdents : List Str :=
  [['t', 'r', 'u', 'e'], ['f', 'a', 'l', 's', 'e'], ['n', 'u', 'l', 'l'], ['i', 'n', 'f'], ['-', 'i', 'n', 'f'],
    ['n', 'a', 'n']]

/-- The head of an identifier that starts with `c`. -/
def identStart (c : Char) (start : Nat) : Lex Unit :=
  if c = '+' || c = '-' then identAfterSign src start
  else if c = '.' then identAfterDot src start
  else if isAsciiDigit c then do
    fail ((← err src .invalidIdent).withMessage "identifier cannot start with a digit")
  else do
    let _ ← bumpChar src
    pure ()

def identText : Lex Str := do
  let index ← get
  if index = start then fail (← err src .invalidIdent)
  else do
    let ident ← inputSlice src start index
    if ident ∈ keywordIdents then
      fail ((← errAt src .invalidIdent start).withMessage
        s!"`{String.ofList ident}` is not a valid identifier; use #{String.ofList ident} for the keyword value")
    else pure ident

def parseIdentifierString : Lex Str := do
  let start ← get
  match ← peekChar src with
  | none => fail (← err src .invalidIdent)
  | some c =>
    if isNonIdentifierChar c then fail (← err src .invalidIdent)
    else do
      identStart src c start
      loop (identRound src) src.rounds ()
      identText src start

end Identifier

section Escape

variable (c : Char)

def hexDigit : Nat :=
  if isAsciiDigit c then c.toNat - 48 else if 'a' ≤ c then c.toNat - 87 else c.toNat - 55

def digitsValue (base : Nat) (digits : Str) : Nat := digits.foldl (fun n c => n * base + hexDigit c) 0

variable (code : Nat)

def isSurrogateOrBeyond : Bool := 0xD800 ≤ code && code ≤ 0xDFFF || 0x10FFFF < code

def charFromU32 : Option Char := if code.isValidChar then some (Char.ofNat code) else none

def simpleEscape : Option Char :=
  [('"', '"'), ('\\', '\\'), ('b', '\x08'), ('f', '\x0C'), ('n', '\n'), ('r', '\r'), ('t', '\t'), ('s', ' ')].lookup c

def hexRound (_ : Unit) : Lex (Round Unit Unit) := do
  match ← peekByte src with
  | some b =>
    if isAsciiHexdigit (Char.ofNat b.toNat) then do
      bumpByte src
      pure (.again ())
    else pure (.done ())
  | none => pure (.done ())

/-- The rest of `\u{…}`. -/
def unicodeEscape : Lex Char := do
  if (← peekByte src) ≠ some '{'.toUInt8 then fail ((← err src .invalidEscape).withExpected "`\x7b`")
  else do
    bumpByte src
    let hexStart ← get
    loop (hexRound src) src.rounds ()
    if (← peekByte src) ≠ some '}'.toUInt8 then fail ((← err src .invalidEscape).withExpected "`\x7d`")
    else do
      let hex ← inputSlice src hexStart (← get)
      if hex = [] ∨ 6 < hex.length then fail (← errAt src .invalidEscape hexStart)
      else do
        if isSurrogateOrBeyond (digitsValue 16 hex) then
          fail ((← errAt src .invalidEscape hexStart).withMessage "invalid unicode scalar")
        else do
          bumpByte src
          match charFromU32 (digitsValue 16 hex) with
          | some c => pure c
          | none => fail (← errAt src .invalidEscape hexStart)

def wsEscapeRound (_ : Unit) : Lex (Round Unit Unit) := do
  match ← peekChar src with
  | some n =>
    if isUnicodeSpace n then do
      let _ ← bumpChar src
      pure (.again ())
    else if isNewlineChar n then do
      let _ ← consumeNewline src
      pure (.again ())
    else pure (.done ())
  | none => pure (.done ())

def interpretEscape : Lex Str := do
  match ← bumpChar src with
  | none => fail (← err src .invalidEscape)
  | some c =>
    match simpleEscape c with
    | some ch => pure [ch]
    | none =>
      if c = 'u' then do
        let ch ← unicodeEscape src
        pure [ch]
      else if isUnicodeSpace c || isNewlineChar c then do
        let next ← peekByte src
        bumpByteIf src (c = '\r' ∧ next = some '\n'.toUInt8)
        loop (wsEscapeRound src) src.rounds ()
        pure []
      else fail ((← err src .invalidEscape).withMessage s!"unknown escape `\\{String.singleton c}`")

def unescapeRound (scratch : Str) : Lex (Round Str Str) := do
  if ← eof src then fail ((← err src .unexpectedEof).withMessage "unclosed string")
  else
    match ← bumpChar src with
    | none => fail (← err src .unexpectedEof)
    | some c =>
      if c = '"' then pure (.done scratch)
      else if c = '\\' then do
        let more ← interpretEscape src
        pure (.again (scratch ++ more))
      else if isDisallowedLiteral c then do
        let index ← get
        fail (← errAt src .disallowedCodePoint (index - c.utf8Size))
      else if isNewlineChar c then fail ((← err src .syntaxError).withMessage "newline in single-line string")
      else pure (.again (scratch ++ [c]))

def unescapeQuotedUntil : Lex Str := do
  let scratch ← loop (unescapeRound src) src.rounds []
  if src.maxStringLen < size scratch then fail (← err src .exceededLimit) else pure scratch

end Escape

section Quoted

/-- The closer and the index behind it: `quoteCount` quotes, then `hashes` hashes. -/
def findStringCloser (bytes : Bytes) (stop quoteCount hashes : Nat) : Nat → Nat → Option (Nat × Nat)
  | 0, _ => none
  | fuel + 1, index =>
    if index < stop then
      let quoteAt := findQuote bytes index stop
      if stop ≤ quoteAt then none
      else
        let quotesEnd := quoteAt + quoteCount
        let closerEnd := quotesEnd + hashes
        if closerEnd ≤ stop ∧ ((bytes.drop quoteAt).take quoteCount).all (· = '"'.toUInt8) ∧
            ((bytes.drop quotesEnd).take hashes).all (· = '#'.toUInt8) then
          some (quoteAt, closerEnd)
        else findStringCloser bytes stop quoteCount hashes fuel (quoteAt + 1)
    else none

/-- The first closer at or behind `index`; `quoteCount` is 1 or 3. -/
def findCloser (index quoteCount hashes : Nat) : Option (Nat × Nat) :=
  findStringCloser src.bytes (min src.logicalEnd src.bytes.length) quoteCount hashes (src.logicalEnd + 1) index

/-- One step of the scan for the closing quote, on a local index. -/
def quotedRound (start : Nat) : Nat × Bool → Lex (Round (Nat × Bool) Str)
  | (i, needsUnescape) =>
    if src.logicalEnd ≤ i then do fail ((← err src .unexpectedEof).withMessage "unclosed string")
    else
      let special := findQuoteOrEscape src.bytes i src.logicalEnd
      if src.logicalEnd ≤ special then do fail ((← err src .unexpectedEof).withMessage "unclosed string")
      else do
        let b ← expect src.bytes[special]?
        if b = '\\'.toUInt8 then pure (.again (special + 2, true))
        else if b = '"'.toUInt8 then do
          let raw ← inputSlice src start special
          if needsUnescape then do
            set start
            let s ← unescapeQuotedUntil src
            pure (.done s)
          else if raw.any isNewlineChar then
            fail ((← errAt src .syntaxError start).withMessage "newline in single-line string")
          else if raw.any isDisallowedLiteral then
            fail (← errAt src .disallowedCodePoint (start + size (raw.takeWhile (! isDisallowedLiteral ·))))
          else do
            set (special + 1)
            pure (.done raw)
        else pure (.again (special + 1, needsUnescape))

end Quoted

section Multiline

def backslashEscapeCountBefore (before : Str) : Nat := (before.reverse.takeWhile (· = '\\')).length

/-- `inEscape` while a whitespace escape goes on. -/
def closingLinePrefixOk (inEscape : Bool) : Str → Bool
  | [] => true
  | c :: cs =>
    if inEscape && (isUnicodeSpace c || isNewlineChar c) then closingLinePrefixOk true cs
    else if isUnicodeSpace c then closingLinePrefixOk false cs
    else if c = '\\' then
      match cs with
      | [] => false
      | n :: cs => if isUnicodeSpace n || isNewlineChar n then closingLinePrefixOk true cs else false
    else false

/-- Whitespace escapes taken out, every other escape kept for later. -/
def resolveWsEscapes (inEscape : Bool) : Str → Except String Str
  | [] => .ok []
  | c :: cs =>
    if inEscape && (isUnicodeSpace c || isNewlineChar c) then resolveWsEscapes true cs
    else if c = '\\' then
      match cs with
      | [] => .ok ['\\']
      | n :: cs =>
        if isUnicodeSpace n || isNewlineChar n then resolveWsEscapes true cs
        else do
          let rest ← resolveWsEscapes false cs
          .ok ('\\' :: n :: rest)
    else if isDisallowedLiteral c then .error "disallowed code point in multiline string"
    else do
      let rest ← resolveWsEscapes false cs
      .ok (c :: rest)

variable (text : Str)

def splitLastNewline : Option (Str × Str) :=
  let after := (text.reverse.takeWhile (· ≠ '\n')).reverse
  if after.length < text.length then some (text.take (text.length - after.length - 1), after) else none

def splitClosingIndent : Except String (Str × Str) :=
  if text = [] then .ok ([], [])
  else if text.all isUnicodeSpace then .ok ([], text)
  else
    match splitLastNewline text with
    | none => .error "multiline string closing quotes must be on their own line after dedent"
    | some (content, after) =>
      if after.all isUnicodeSpace then .ok (content, after)
      else .error "multiline string closing line must contain only whitespace after ws-escapes"

def dedentLine (indent line : Str) : Except String Str :=
  let line := if line.getLast? = some '\r' then line.dropLast else line
  if line.all isUnicodeSpace then .ok []
  else if indent.isPrefixOf line then .ok (line.drop indent.length)
  else .error "multiline string indent mismatch"

def dedentLines (content indent : Str) : Except String Str :=
  if content = [] then .ok []
  else do
    let lines ← (content.splitOn '\n').mapM (dedentLine indent)
    .ok ((lines.intersperse ['\n']).flatten)

/-- `hex` holds the digits of a `\u{…}` that has been opened. -/
def applyNonWsEscapes (hex : Option Str) : Str → Except String Str
  | [] => if hex.isSome then .error "invalid unicode escape" else .ok []
  | c :: cs =>
    match hex with
    | some digits =>
      if c = '}' then
        if digits = [] ∨ isSurrogateOrBeyond (digitsValue 16 digits) then .error "invalid unicode escape"
        else
          match charFromU32 (digitsValue 16 digits) with
          | some ch => do
            let rest ← applyNonWsEscapes none cs
            .ok (ch :: rest)
          | none => .error "invalid unicode escape"
      else if isAsciiHexdigit c ∧ digits.length < 6 then applyNonWsEscapes (some (digits ++ [c])) cs
      else .error "invalid unicode escape"
    | none =>
      if c ≠ '\\' then do
        let rest ← applyNonWsEscapes none cs
        .ok (c :: rest)
      else
        match cs with
        | [] => .error "invalid escape at end of multiline string"
        | 'u' :: '{' :: cs => applyNonWsEscapes (some []) cs
        | 'u' :: _ => .error "invalid unicode escape"
        | esc :: cs =>
          match simpleEscape esc with
          | some ch => do
            let rest ← applyNonWsEscapes none cs
            .ok (ch :: rest)
          | none => .error "invalid escape in multiline string"

variable (rawBody : Str)

def processEscapedMultiline : Except String Str := do
  let phase1 ← resolveWsEscapes false rawBody
  let (content, indent) ← splitClosingIndent phase1
  let dedented ← dedentLines content indent
  applyNonWsEscapes none dedented

def processRawMultiline : Except String Str :=
  if rawBody.any isDisallowedLiteral then .error "disallowed code point in raw multiline string"
  else do
    let (content, indent) ← splitClosingIndent rawBody
    dedentLines content indent

/-- One candidate closer of a quoted multi-line string, from a local position. -/
def multilineCloserRound (bodyStart hashes pos : Nat) : Lex (Round Nat (Option (Nat × Nat))) := do
  match findCloser src pos 3 hashes with
  | none => pure (.done none)
  | some (closeAt, endIndex) => do
    let before ← inputSlice src 0 closeAt
    if backslashEscapeCountBefore before % 2 = 1 then pure (.again (closeAt + 1))
    else do
      let lineStart := match splitLastNewline before with
        | some (_, line) => closeAt - size line
        | none => bodyStart
      let closing ← inputSlice src (max lineStart bodyStart) closeAt
      if closingLinePrefixOk false closing then pure (.done (some (closeAt, endIndex)))
      else pure (.again (closeAt + 1))

def findMultilineCloser (bodyStart hashes : Nat) (raw : Bool) : Lex (Option (Nat × Nat)) :=
  if raw then pure (findCloser src bodyStart 3 hashes)
  else loop (multilineCloserRound src bodyStart hashes) src.rounds bodyStart

def parseMultilineString (hashes : Nat) (raw : Bool) : Lex Str := do
  if ← consumeExact src ['"', '"', '"'] then
    if ← consumeNewline src then do
      let bodyStart ← get
      match ← findMultilineCloser src bodyStart hashes raw with
      | none => fail ((← err src .unexpectedEof).withMessage "unclosed multiline string")
      | some (closeAt, endIndex) => do
        let rawBody ← inputSlice src bodyStart closeAt
        match if raw then processRawMultiline rawBody else processEscapedMultiline rawBody with
        | .error message => fail ((← errAt src .syntaxError bodyStart).withMessage message)
        | .ok text => do
          set endIndex
          if src.maxStringLen < size text then fail (← err src .exceededLimit) else pure text
    else
      fail ((← err src .syntaxError).withMessage "multiline string must start with a newline after \"\"\"")
  else fail (← err src .syntaxError)

end Multiline

def parseQuotedString : Lex Str := do
  if ← startsWith src ['"', '"', '"'] then parseMultilineString src 0 false
  else if (← peekByte src) ≠ some '"'.toUInt8 then fail ((← err src .syntaxError).withExpected "`\"`")
  else do
    bumpByte src
    let start ← get
    loop (quotedRound src start) src.rounds (start, false)

def hashesRound (hashes : Nat) : Lex (Round Nat Nat) := do
  if (← peekByte src) = some '#'.toUInt8 then do
    bumpByte src
    pure (.again (hashes + 1))
  else pure (.done hashes)

def parseRawString : Lex Str := do
  if (← peekByte src) ≠ some '#'.toUInt8 then fail (← err src .syntaxError)
  else do
    let hashes ← loop (hashesRound src) src.rounds 0
    if ← startsWith src ['"', '"', '"'] then parseMultilineString src hashes true
    else if (← peekByte src) ≠ some '"'.toUInt8 then
      fail (((← err src .syntaxError).withMessage "raw string expected `\"` after `#`").withExpected "`\"`")
    else do
      bumpByte src
      let start ← get
      match findCloser src start 1 hashes with
      | none => fail ((← err src .unexpectedEof).withMessage "unclosed raw string")
      | some (closeAt, endIndex) => do
        let content ← inputSlice src start closeAt
        if content.any isNewlineChar then
          fail ((← errAt src .syntaxError start).withMessage "newline in single-line raw string")
        else if content.any isDisallowedLiteral then fail (← errAt src .disallowedCodePoint start)
        else do
          set endIndex
          pure content

def parseStringValue : Lex Str := do
  match ← peekByte src with
  | none => fail ((← err src .unexpectedEof).withExpected "string")
  | some b =>
    if b = '"'.toUInt8 then parseQuotedString src
    else if b = '#'.toUInt8 then parseRawString src
    else parseIdentifierString src

end TensorDE.Kdl
