import TensorDE.Lib.Effect
import TensorDE.Lib.Codec
import TensorDE.Dbus.Names

namespace TensorDE.Dbus

open Effect Bytes Codec

variable {σ : Type}

abbrev Fd := Nat

def fixedHeaderLen : Nat := 16
def maxMessageSize : Nat := 16 * 1024 * 1024
def maxUnixFds : Nat := 64

inductive Endian where
  | little
  | big
deriving DecidableEq

inductive MessageKind where
  | methodCall
  | methodReturn
  | error
  | signal
deriving DecidableEq

def MessageKind.toByte : MessageKind → UInt8
  | .methodCall => 1
  | .methodReturn => 2
  | .error => 3
  | .signal => 4

def MessageKind.ofByte (value : UInt8) : Op σ Error MessageKind :=
  match value with
  | 1 => pure .methodCall
  | 2 => pure .methodReturn
  | 3 => pure .error
  | 4 => pure .signal
  | _ => fail (.invalidMessage s!"unknown message type {value}")

def MessageKind.name : MessageKind → String
  | .methodCall => "MethodCall"
  | .methodReturn => "MethodReturn"
  | .error => "Error"
  | .signal => "Signal"

structure Span where
  start : Nat
  stop : Nat
deriving DecidableEq

structure Message where
  kind : MessageKind
  flags : UInt8
  serial : UInt32
  replySerial : Option UInt32
  path : Option Span
  interface : Option Span
  member : Option Span
  errorName : Option Span
  destination : Option Span
  sender : Option Span
  declaredUnixFds : Option UInt32
  signature : Option Span
  frame : Bytes
  bodyRange : Span
  unixFds : List Fd
  bodyPosition : Nat
  endian : Endian
deriving DecidableEq

/-- What the codec takes from the value library: the validity of object paths
and signatures, whether a signature text is one complete type, and the number of
bytes one variant takes at a position of the message. -/
structure Zvariant where
  objectPath : Bytes → Bool
  signature : Bytes → Bool
  completeType : Bytes → Bool
  consume : Endian → Nat → Bytes → List Fd → Option Nat

def align (value alignment : Nat) : Nat :=
  (value + alignment - 1) / alignment * alignment

/-- Clearing the low bits of a power of two; the sum before it is a `usize` sum. -/
def alignUsize (value alignment : Nat) : Op σ Error Nat := do
  let _ ← addUsize value alignment
  pure (align value alignment)

def parseEndian (byte : UInt8) : Op σ Error Endian :=
  if byte = 108 then pure .little
  else if byte = 66 then pure .big
  else fail (.invalidMessageAbout "invalid endian marker" [byte])

variable (bytes : Bytes)

def readU32 (endian : Endian) : Op σ Error UInt32 :=
  if bytes.length = 4 then
    match endian with
    | .little => pure (UInt32.ofNat (ofLe bytes))
    | .big => pure (UInt32.ofNat (ofBe bytes))
  else throw .panic

def byteAt (index : Nat) : Op σ Error UInt8 := expect bytes[index]?

def frameLen (fixed : Bytes) : Op σ Error Nat := do
  let endian ← parseEndian (← byteAt fixed 0)
  let version ← byteAt fixed 3
  if version ≠ 1 then fail (.invalidMessage s!"unsupported protocol version {version}")
  else do
    let _ ← MessageKind.ofByte (← byteAt fixed 1)
    let bodyLen ← readU32 (← slice fixed 4 8) endian
    let fieldsLen ← readU32 (← slice fixed 12 16) endian
    let sum ← okOr (checkedAdd fixedHeaderLen fieldsLen.toNat) (.messageTooLarge maxMessageSize)
    let headerLen ← alignUsize sum 8
    let total ← okOr (checkedAdd headerLen bodyLen.toNat) (.messageTooLarge maxMessageSize)
    if total > maxMessageSize then fail (.messageTooLarge maxMessageSize) else pure total

section Fields

variable (z : Zvariant) (bytes : Bytes) (fieldsEnd : Nat) (endian : Endian) (len : Nat)

def take : Op Nat Error Bytes := do
  let position ← get
  let next ← okOr (checkedAdd position len) (.invalidMessage "header field overflow")
  if next > fieldsEnd ∨ next > bytes.length then fail (.invalidMessage "truncated header field")
  else do
    let value ← slice bytes position next
    set next
    pure value

def takeU8 : Op Nat Error UInt8 := do
  byteAt (← take bytes fieldsEnd 1) 0

def takeU32 : Op Nat Error UInt32 := do
  readU32 (← take bytes fieldsEnd 4) endian

def validateZeroPadding (padding : Bytes) (kind : String) : Op σ Error Unit :=
  if padding.any (· ≠ 0) then fail (.invalidMessage s!"nonzero {kind} padding") else pure ()

def alignFieldPosition (alignment : Nat) : Op Nat Error Unit := do
  let position ← get
  let aligned ← alignUsize position alignment
  let padding ← take bytes fieldsEnd (← subUsize aligned position)
  validateZeroPadding padding "header field"

def takeStringRange : Op Nat Error Span := do
  let start ← get
  let value ← take bytes fieldsEnd len
  let terminator ← takeU8 bytes fieldsEnd
  if terminator ≠ 0 then fail (.invalidMessage "header string is not NUL terminated")
  else if isUtf8 value then do
    let stop ← addUsize start len
    pure ⟨start, stop⟩
  else fail (.invalidMessage "header string is not UTF-8")

def knownFieldSignature (code : UInt8) : Option Bytes :=
  match code with
  | 1 => some (ofAscii "o")
  | 2 | 3 | 4 | 6 | 7 => some (ofAscii "s")
  | 5 | 9 => some (ofAscii "u")
  | 8 => some (ofAscii "g")
  | _ => none

def checkKnown (known : Nat) (code : UInt8) (signature : Bytes) : Op σ Error Nat :=
  match knownFieldSignature code with
  | none => pure known
  | some expected =>
    if known &&& (1 <<< code.toNat) ≠ 0 then fail (.invalidMessage s!"duplicate header field {code}")
    else if signature ≠ expected then
      fail (.invalidMessageAbout s!"header field {code} has another signature than expected" signature)
    else pure (known ||| (1 <<< code.toNat))

/-- Code, position of the variant and signature text of the next field. -/
def readFieldHead : Op Nat Error (UInt8 × Nat × Bytes) := do
  let code ← takeU8 bytes fieldsEnd
  if code = 0 then fail (.invalidMessage "header field code zero is reserved")
  else do
    let variantPosition ← get
    let signatureLen ← takeU8 bytes fieldsEnd
    let signature ← take bytes fieldsEnd signatureLen.toNat
    let terminator ← takeU8 bytes fieldsEnd
    if terminator ≠ 0 then fail (.invalidMessage "header variant signature is not NUL terminated")
    else pure (code, variantPosition, signature)

inductive FieldValue where
  | text (range : Span)
  | signature (range : Span)
  | number (value : UInt32)
  | unknown

variable (variantPosition : Nat)

def skipUnknownField (signature : Bytes) (unixFds : List Fd) :
    Op Nat Error Unit := do
  if isUtf8 signature = false then fail (.invalidMessage "header field signature is not UTF-8")
  else if z.signature signature = false then
    fail (.invalidMessageAbout "invalid header field signature" signature)
  else if signature = [] ∨ z.completeType signature = false then
    fail (.invalidMessage "header variant must contain exactly one complete type")
  else do
    let data ← slice bytes variantPosition fieldsEnd
    let consumed ← okOr (z.consume endian variantPosition data unixFds)
      (.invalidMessage "invalid unknown header field")
    let position ← okOr (checkedAdd variantPosition consumed) (.invalidMessage "header field overflow")
    set position
    if position > fieldsEnd then fail (.invalidMessage "truncated header field") else pure ()

def readFieldValue (signature : Bytes) (unixFds : List Fd) :
    Op Nat Error FieldValue := do
  if signature = ofAscii "s" ∨ signature = ofAscii "o" then do
    alignFieldPosition bytes fieldsEnd 4
    let len ← takeU32 bytes fieldsEnd endian
    FieldValue.text <$> takeStringRange bytes fieldsEnd len.toNat
  else if signature = ofAscii "g" then do
    let len ← takeU8 bytes fieldsEnd
    FieldValue.signature <$> takeStringRange bytes fieldsEnd len.toNat
  else if signature = ofAscii "u" then do
    alignFieldPosition bytes fieldsEnd 4
    FieldValue.number <$> takeU32 bytes fieldsEnd endian
  else do
    skipUnknownField z bytes fieldsEnd endian variantPosition signature unixFds
    pure .unknown

variable (message : Message)

def assignField (code : UInt8) : FieldValue → Message
  | .text range =>
    match code with
    | 1 => { message with path := some range }
    | 2 => { message with interface := some range }
    | 3 => { message with member := some range }
    | 4 => { message with errorName := some range }
    | 6 => { message with destination := some range }
    | 7 => { message with sender := some range }
    | _ => message
  | .signature range => if code = 8 then { message with signature := some range } else message
  | .number value =>
    match code with
    | 5 => { message with replySerial := some value }
    | 9 => { message with declaredUnixFds := some value }
    | _ => message
  | .unknown => message

/-- The field loop. Every round takes at least the code byte of a field. -/
def parseFieldsLoop : Nat → Nat → Message → Op Nat Error Message
  | 0, _, _ => throw .diverge
  | rounds + 1, known, message => do
    let position ← get
    if position < fieldsEnd then do
      alignFieldPosition bytes fieldsEnd 8
      let position ← get
      if position = fieldsEnd then pure message
      else do
        let head ← readFieldHead bytes fieldsEnd
        let known ← checkKnown known head.1 head.2.2
        let value ← readFieldValue z bytes fieldsEnd endian head.2.1 head.2.2 message.unixFds
        parseFieldsLoop rounds known (assignField message head.1 value)
    else pure message

def parseFields : Op Nat Error Message := do
  set fixedHeaderLen
  parseFieldsLoop z bytes fieldsEnd endian (fieldsEnd + 1) 0 message

end Fields

variable (message : Message)

/-- The text behind a stored range; a range that does not hold UTF-8 panics. -/
def Message.header (range : Option Span) : Op σ Error (Option Bytes) :=
  match range with
  | none => pure none
  | some range => do
    let text ← slice message.frame range.start range.stop
    if isUtf8 text then pure (some text) else throw .panic

def Message.bodyBytes : Op σ Error Bytes :=
  slice message.frame message.bodyRange.start message.bodyRange.stop

def Message.wireLen : Nat := message.frame.length

def validateUnixFds : Op σ Error Unit :=
  let declared := (message.declaredUnixFds.map (·.toNat)).getD 0
  let received := message.unixFds.length
  if declared > maxUnixFds then fail (.unixFdLimit declared maxUnixFds)
  else if declared ≠ received then
    fail (.invalidMessage
      s!"header declares {declared} Unix file descriptors but {received} were received")
  else pure ()

def missingField : Option String :=
  match message.kind with
  | .methodCall =>
    if message.path.isNone then some "path" else if message.member.isNone then some "member" else none
  | .methodReturn => if message.replySerial.isNone then some "reply serial" else none
  | .error =>
    if message.replySerial.isNone then some "reply serial"
    else if message.errorName.isNone then some "error name" else none
  | .signal =>
    if message.path.isNone then some "path" else if message.interface.isNone then some "interface"
    else if message.member.isNone then some "member" else none

def validateRequiredFields : Op σ Error Unit :=
  match missingField message with
  | some field => fail (.invalidMessage s!"missing required {field}")
  | none => pure ()

def forbiddenField : Option String :=
  match message.kind with
  | .methodCall =>
    if message.replySerial.isSome then some "reply serial"
    else if message.errorName.isSome then some "error name" else none
  | .methodReturn =>
    if message.path.isSome then some "path" else if message.interface.isSome then some "interface"
    else if message.member.isSome then some "member"
    else if message.errorName.isSome then some "error name" else none
  | .error =>
    if message.path.isSome then some "path" else if message.interface.isSome then some "interface"
    else if message.member.isSome then some "member" else none
  | .signal =>
    if message.replySerial.isSome then some "reply serial"
    else if message.errorName.isSome then some "error name" else none

def validateFieldSemantics : Op σ Error Unit :=
  match forbiddenField message with
  | some field =>
    let kind := message.kind.name
    fail (.invalidMessage s!"{field} is invalid for a {kind} message")
  | none => pure ()

/-- A field that is present is checked; the text of the error names the checked field. -/
def validateValue (range : Option Span) (valid : Bytes → Bool) (text : String) :
    Op σ Error Unit := do
  match ← message.header range with
  | none => pure ()
  | some value => if valid value then pure () else fail (.invalidMessageAbout text value)

variable (z : Zvariant)

def validateFieldValues (message : Message) : Op σ Error Unit := do
  validateValue message message.path z.objectPath "invalid object path"
  validateValue message message.interface isInterfaceName "invalid D-Bus name: interface name"
  validateValue message message.member isMemberName "invalid D-Bus name: member name"
  validateValue message message.errorName isInterfaceName "invalid D-Bus name: error name"
  validateValue message message.destination (fun name => isUniqueName name || isWellKnownName name)
    "invalid D-Bus name: destination bus name"
  validateValue message message.sender isUniqueName "invalid D-Bus name: sender unique name"
  if message.replySerial = some 0 then fail (.invalidMessage "reply serial is zero") else pure ()

def validateBodySignature (message : Message) : Op σ Error Unit := do
  let signature := (← message.header message.signature).getD []
  if z.signature signature = false then fail (.invalidMessageAbout "invalid body signature" signature)
  else do
    let body ← message.bodyBytes
    if body.isEmpty ≠ signature.isEmpty then
      fail (.invalidMessage "body length and signature presence are inconsistent")
    else pure ()

def validateMessage (message : Message) : Op σ Error Unit := do
  validateUnixFds message
  validateRequiredFields message
  validateFieldSemantics message
  validateFieldValues z message
  validateBodySignature z message

/-- The message before its header fields are read. -/
def blankMessage (kind : MessageKind) (flags : UInt8) (serial : UInt32) (endian : Endian)
    (frame : Bytes) (unixFds : List Fd) (bodyPosition bodyEnd : Nat) : Message where
  kind := kind
  flags := flags
  serial := serial
  replySerial := none
  path := none
  interface := none
  member := none
  errorName := none
  destination := none
  sender := none
  declaredUnixFds := none
  signature := none
  frame := frame
  bodyRange := ⟨bodyPosition, bodyEnd⟩
  unixFds := unixFds
  bodyPosition := bodyPosition
  endian := endian

def decodeFields (bytes : Bytes) (unixFds : List Fd) (kind : MessageKind) (flags : UInt8)
    (serial : UInt32) (endian : Endian) (fieldsLen bodyLen : UInt32) : Op Nat Error Message := do
  let fieldsEnd ← addUsize fixedHeaderLen fieldsLen.toNat
  let bodyPosition ← alignUsize fieldsEnd 8
  let bodyEnd ← addUsize bodyPosition bodyLen.toNat
  let message ← parseFields z bytes fieldsEnd endian
    (blankMessage kind flags serial endian bytes unixFds bodyPosition bodyEnd)
  validateZeroPadding (← slice bytes fieldsEnd bodyPosition) "header"
  validateMessage z message
  pure message

def decodeMessage (bytes : Bytes) (unixFds : List Fd) : Op Nat Error Message := do
  if bytes.length < fixedHeaderLen then fail (.invalidMessage "truncated fixed header")
  else do
    let fixed := bytes.take fixedHeaderLen
    let total ← frameLen fixed
    let received := bytes.length
    if received ≠ total then
      fail (.invalidMessage s!"frame length mismatch: expected {total}, received {received}")
    else do
      let endian ← parseEndian (← byteAt fixed 0)
      let kind ← MessageKind.ofByte (← byteAt fixed 1)
      let flags ← byteAt fixed 2
      let serial ← readU32 (← slice fixed 8 12) endian
      if serial = 0 then fail (.invalidMessage "message serial is zero")
      else do
        let fieldsLen ← readU32 (← slice fixed 12 16) endian
        let bodyLen ← readU32 (← slice fixed 4 8) endian
        decodeFields z bytes unixFds kind flags serial endian fieldsLen bodyLen

def decode (bytes : Bytes) (unixFds : List Fd) : Except (Fault Error) Message :=
  match decodeMessage z bytes unixFds 0 with
  | .ok message _ => .ok message
  | .error e _ => .error e

end TensorDE.Dbus
