import TensorDE.Lib.Effect
import TensorDE.Lib.Bytes
import TensorDE.Kdl.Value

set_option linter.dupNamespace false

namespace TensorDE.Kdl

open Effect Utf8

/-- Where a typed write goes: a buffer that grows, or a bounded one of which the
first `ix` bytes are written. -/
inductive WriteSink where
  | grow (buf : Bytes)
  | fixed (bytes : Bytes) (ix : Nat)
deriving DecidableEq

abbrev Write := Op WriteSink ErrorCtx Unit

namespace WriteSink

def string : WriteSink := .grow []

def slice (bytes : Bytes) : WriteSink := .fixed bytes 0

def written : WriteSink → Nat
  | grow buf => buf.length
  | fixed _ ix => ix

def bytes : WriteSink → Bytes
  | grow buf => buf
  | fixed bytes _ => bytes

end WriteSink

/-- `bytes[ix..ix + raw.len()]` replaced by `raw`. -/
def overlay (bytes : Bytes) (ix : Nat) (raw : Bytes) : Bytes :=
  bytes.take ix ++ raw ++ bytes.drop (ix + raw.length)

def overflow (ix : Nat) : ErrorCtx := (ErrorCtx.new .bufferOverflow ix).withMessage "fixed write buffer too small"

section Push

variable (c : UInt8)

/-- One byte. A growing buffer is a string and takes the byte as a character. -/
def pushByte : Write := fun
  | .grow buf => .ok () (.grow (buf ++ encode [Char.ofNat c.toNat]))
  | .fixed bytes ix =>
    if bytes.length ≤ ix then .error (.error (overflow ix)) (.fixed bytes ix)
    else .ok () (.fixed (bytes.set ix c) (ix + 1))

/-- A text. What still fits of it is written before the overflow is reported. -/
def pushStr (s : Str) : Write := fun
  | .grow buf => .ok () (.grow (buf ++ encode s))
  | .fixed bytes ix =>
    if bytes.length < ix + size s then
      .error (.error (overflow bytes.length))
        (.fixed (overlay bytes ix ((encode s).take (bytes.length - ix))) bytes.length)
    else .ok () (.fixed (overlay bytes ix (encode s)) (ix + size s))

def pushByteN (n : Nat) : Write := fun sink =>
  if n = 0 then .ok () sink
  else
    match sink with
    | .grow buf => .ok () (.grow (buf ++ encode (List.replicate n (Char.ofNat c.toNat))))
    | .fixed bytes ix =>
      if bytes.length < ix + n then
        .error (.error (overflow bytes.length))
          (.fixed (bytes.take ix ++ List.replicate (bytes.length - ix) c) bytes.length)
      else .ok () (.fixed (overlay bytes ix (List.replicate n c)) (ix + n))

def pushChar (c : Char) : Write := pushStr [c]

end Push

def writeIndent (level : Nat) : Write := pushByteN ' '.toUInt8 (level * 4)

section Quoted

variable (c : Char)

def isControl : Bool := c.toNat < 0x20 || 0x7F ≤ c.toNat && c.toNat < 0xA0

/-- The digits of a number, the highest first: the source fills a buffer from its end. -/
def digitsOf (base n : Nat) : Str := if n = 0 then ['0'] else (Nat.digits base n).reverse.map Nat.digitChar

def writeUnicodeEscape (cp : Nat) : Str := ['\\', 'u', '\x7b'] ++ digitsOf 16 cp ++ ['\x7d']

def quotedChar : Str :=
  if c = '"' then ['\\', '"']
  else if c = '\\' then ['\\', '\\']
  else if c = '\n' then ['\\', 'n']
  else if c = '\r' then ['\\', 'r']
  else if c = '\t' then ['\\', 't']
  else if c = '\x08' then ['\\', 'b']
  else if c = '\x0c' then ['\\', 'f']
  else if isControl c || isDisallowedLiteral c then writeUnicodeEscape c.toNat
  else [c]

def writeChars : Str → Write
  | [] => pure ()
  | c :: s => do
    pushStr (quotedChar c)
    writeChars s

variable (s : Str)

def writeQuoted : Write := do
  pushByte '"'.toUInt8
  writeChars s
  pushByte '"'.toUInt8

/-- Whether a sign or a dot at the start would be taken for a number. -/
def numberStart : Bool :=
  match s with
  | [] => false
  | first :: rest =>
    isAsciiDigit first || first = '.' && rest.head?.any isAsciiDigit ||
      (first = '+' || first = '-') &&
        (rest.head?.any isAsciiDigit || rest.head? = some '.' && rest[1]?.any isAsciiDigit)

def bareKeywords : List Str :=
  [['t', 'r', 'u', 'e'], ['f', 'a', 'l', 's', 'e'], ['n', 'u', 'l', 'l'], ['i', 'n', 'f'], ['-', 'i', 'n', 'f'],
    ['n', 'a', 'n']]

def isBareIdent : Bool :=
  s ≠ [] && s ∉ bareKeywords && !numberStart s && !s.any fun c => isNonIdentifierChar c || isDisallowedLiteral c

def writeIdentOrString : Write := if isBareIdent s then pushStr s else writeQuoted s

end Quoted

section Scalar

def writeBool (v : Bool) : Write :=
  pushStr (if v then ['#', 't', 'r', 'u', 'e'] else ['#', 'f', 'a', 'l', 's', 'e'])

def writeNull : Write := pushStr ['#', 'n', 'u', 'l', 'l']

variable (n : Nat)

def formatU128 : Str := digitsOf 10 n

/-- The least value has no negation in `i128` and is written out. -/
def formatI128 (n : Int) : Str :=
  if n = -2 ^ 127 then "-170141183460469231731687303715884105728".toList
  else if 0 ≤ n then formatU128 n.toNat
  else '-' :: formatU128 (-n).toNat

def writeI128 (n : Int) : Write := pushStr (formatI128 n)

def writeU128 : Write := pushStr (formatU128 n)

end Scalar

section Node

def writeType : Option Str → Write
  | none => pure ()
  | some ty => do
    pushByte '('.toUInt8
    writeIdentOrString ty
    pushByte ')'.toUInt8

variable (indent : Nat)

def writeNodeHeader (typeName : Option Str) (name : Str) : Write := do
  writeIndent indent
  writeType typeName
  writeIdentOrString name

def writeArgumentPrefix : Write := pushByte ' '.toUInt8

def writePropertyKey (key : Str) : Write := do
  pushByte ' '.toUInt8
  writeIdentOrString key
  pushByte '='.toUInt8

def writeNodeEndLeaf : Write := pushByte '\n'.toUInt8

def writeChildrenOpen : Write := pushStr [' ', '\x7b', '\n']

def writeChildrenClose : Write := do
  writeIndent indent
  pushStr ['\x7d', '\n']

def writeFlagLine (name : Str) : Write := do
  writeNodeHeader indent none name
  writeNodeEndLeaf

def writeArgNodeLine (name : Str) (value : Write) : Write := do
  writeNodeHeader indent none name
  writeArgumentPrefix
  value
  writeNodeEndLeaf

def writePropNodeLine (name key : Str) (value : Write) : Write := do
  writeNodeHeader indent none name
  writePropertyKey key
  value
  writeNodeEndLeaf

end Node

end TensorDE.Kdl
