import TensorDE.Lib.Loop
import TensorDE.Kdl.Swar
import TensorDE.Kdl.Value

set_option linter.dupNamespace false

namespace TensorDE.Kdl

open Effect Utf8

/-- What a parser reads: the text, whether it lies in a padded buffer, and the
limits of its context. -/
structure Source where
  input : Str
  padded : Bool
  maxStringLen : Nat
  maxChildren : Nat
  maxDepth : Nat

def paddingBytes : Nat := 16

namespace Source

variable (src : Source)

def padding : Nat := if src.padded then paddingBytes else 0

def bytes : Bytes := encode src.input ++ List.replicate src.padding 0

def logicalEnd : Nat := size src.input

/-- Enough rounds for a loop that moves on by at least a byte in each. -/
def rounds : Nat := src.logicalEnd + 2

end Source

/-- A method that only moves the index. -/
abbrev Lex := Op Nat ErrorCtx

variable (src : Source) (code : ErrorCode)

def err : Lex ErrorCtx := do
  let index ← get
  pure (.new code (min index src.logicalEnd))

def errAt (offset : Nat) : Lex ErrorCtx := do
  let index ← get
  pure ((ErrorCtx.new code (min offset src.logicalEnd)).withConsumed (min index src.logicalEnd))

/-- `&input[index..]`, which panics off a character boundary. -/
def remaining : Lex Str := do
  let index ← get
  expect (suffixAt src.input (min index src.logicalEnd))

def inputSlice (start stop : Nat) : Lex Str := do
  let after ← expect (suffixAt src.input start)
  let rest ← expect (suffixAt src.input stop)
  if start ≤ stop then pure (after.take (after.length - rest.length)) else throw .panic

def eof : Lex Bool := do
  let index ← get
  pure (src.logicalEnd ≤ index)

def peekByte : Lex (Option UInt8) := do
  let index ← get
  pure (if src.logicalEnd ≤ index then none else src.bytes[index]?)

def peekChar : Lex (Option Char) := do
  let rest ← remaining src
  pure rest.head?

def bumpByte : Lex Unit := modify fun index => if index < src.logicalEnd then index + 1 else index

def bumpByteIf (condition : Bool) : Lex Unit := if condition then bumpByte src else pure ()

def bumpChar : Lex (Option Char) := do
  match ← remaining src with
  | [] => pure none
  | c :: _ => do
    modify (· + c.utf8Size)
    pure (some c)

variable (s : Str)

def startsWith : Lex Bool := do
  let rest ← remaining src
  pure (s.isPrefixOf rest)

def advance (count : Nat) : Lex Unit := modify (· + count)

def consumeExact : Lex Bool := do
  if ← startsWith src s then do
    advance (size s)
    pure true
  else pure false

def skipBom : Lex Unit := do
  if ← startsWith src ['\uFEFF'] then advance 3 else pure ()

section Space

def atNewline : Lex Bool := do
  match ← peekChar src with
  | some c => pure (isNewlineChar c)
  | none => pure false

def consumeNewline : Lex Bool := do
  match ← peekChar src with
  | some c =>
    if c = '\r' then do
      let _ ← bumpChar src
      let next ← peekByte src
      bumpByteIf src (next = some '\n'.toUInt8)
      pure true
    else if isNewlineChar c then do
      let _ ← bumpChar src
      pure true
    else pure false
  | none => pure false

def lineCommentRound (_ : Unit) : Lex (Round Unit Unit) := do
  match ← peekChar src with
  | some c =>
    if isNewlineChar c then do
      let _ ← consumeNewline src
      pure (.done ())
    else do
      let _ ← bumpChar src
      pure (.again ())
  | none => pure (.done ())

def skipLineComment : Lex Unit := do
  advance 2
  loop (lineCommentRound src) src.rounds ()

/-- `i32` arithmetic of a release build. -/
def wrapI32 (n : Int) : Int := n.bmod (2 ^ 32)

def blockCommentRound (depth : Int) : Lex (Round Int Unit) := do
  if depth ≤ 0 then pure (.done ())
  else if ← eof src then fail ((← err src .unexpectedEof).withMessage "unclosed block comment")
  else if ← startsWith src ['/', '*'] then do
    advance 2
    pure (.again (wrapI32 (depth + 1)))
  else if ← startsWith src ['*', '/'] then do
    advance 2
    pure (.again (wrapI32 (depth - 1)))
  else do
    let _ ← bumpChar src
    pure (.again depth)

def skipBlockComment : Lex Unit := do
  advance 2
  loop (blockCommentRound src) src.rounds 1

def wsOnlyRound (_ : Unit) : Lex (Round Unit Unit) := do
  let before ← get
  set (skipAsciiHorizontalWs src.bytes before src.logicalEnd)
  if ((← peekChar src).any isUnicodeSpace) then do
    let _ ← bumpChar src
    pure (.again ())
  else if ← startsWith src ['/', '*'] then do
    skipBlockComment src
    pure (.again ())
  else do
    let index ← get
    pure (if index = before then .done () else .again ())

def skipWsOnly : Lex Unit := loop (wsOnlyRound src) src.rounds ()

def skipEscline : Lex Unit := do
  if (← peekByte src) ≠ some '\\'.toUInt8 then fail (← err src .syntaxError)
  else do
    bumpByte src
    skipWsOnly src
    if ← startsWith src ['/', '/'] then skipLineComment src
    else if ← eof src then pure ()
    else if ← consumeNewline src then pure ()
    else fail ((← err src .syntaxError).withMessage "line continuation must end with newline or comment")

def nodeSpaceRound (_ : Unit) : Lex (Round Unit Unit) := do
  let before ← get
  skipWsOnly src
  if (← peekByte src) = some '\\'.toUInt8 then do
    skipEscline src
    pure (.again ())
  else do
    let index ← get
    pure (if index = before then .done () else .again ())

def skipNodeSpaceCounted : Lex Bool := do
  let start ← get
  loop (nodeSpaceRound src) src.rounds ()
  let index ← get
  pure (start < index)

def skipNodeSpace : Lex Unit := do
  let _ ← skipNodeSpaceCounted src
  pure ()

def lineSpaceRound (_ : Unit) : Lex (Round Unit Unit) := do
  let before ← get
  skipWsOnly src
  if ← startsWith src ['/', '/'] then do
    skipLineComment src
    pure (.again ())
  else if ← consumeNewline src then pure (.again ())
  else if (← peekByte src) = some '\\'.toUInt8 then do
    skipEscline src
    pure (.again ())
  else do
    let index ← get
    pure (if index = before then .done () else .again ())

def skipLineSpace : Lex Unit := loop (lineSpaceRound src) src.rounds ()

end Space

end TensorDE.Kdl
