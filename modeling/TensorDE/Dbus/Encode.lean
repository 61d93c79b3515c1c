import TensorDE.Dbus.Wire

namespace TensorDE.Dbus

open Effect Bytes Codec

structure Outgoing where
  kind : MessageKind
  flags : UInt8
  serial : UInt32
  replySerial : Option UInt32
  path : Option Text
  interface : Option Text
  member : Option Text
  errorName : Option Text
  destination : Option Text

/-- A body as the value library shows it: its signature without the outer
parentheses, its size and number of descriptors when written at a position of
the message, and what is written there. -/
structure Body where
  signature : Text
  serializedSize : Nat → Option (Nat × Nat)
  toWriter : Nat → Option (Bytes × List Fd)

structure EncodedMessage where
  bytes : Bytes
  unixFds : List Fd

variable (bytes : Bytes)

def resize (len : Nat) : Bytes := bytes.take len ++ List.replicate (len - bytes.length) 0

def alignVec (base alignment : Nat) : Bytes :=
  resize bytes (align (base + bytes.length) alignment - base)

def tooLarge : Error := .messageTooLarge maxMessageSize

variable (fields : Bytes)

def pushStringFieldAt (base : Nat) (code signature : UInt8) (value : Bytes) :
    Except Error Bytes :=
  if fields.length + value.length + 16 > maxMessageSize then .error tooLarge
  else
    let fields := alignVec fields base 8 ++ [code] ++ [1, signature, 0]
    let fields := alignVec fields base 4
    if value.length < 2 ^ 32 then .ok (fields ++ toLe 4 value.length ++ value ++ [0])
    else .error tooLarge

def pushU32FieldAt (base : Nat) (code : UInt8) (value : UInt32) : Bytes :=
  let fields := alignVec fields base 8 ++ [code] ++ [1, 117, 0]
  alignVec fields base 4 ++ toLe 4 value.toNat

def pushSignatureFieldAt (base : Nat) (value : Bytes) : Except Error Bytes :=
  if value.length < 256 then
    .ok (alignVec fields base 8 ++ [8] ++ [1, 103, 0, UInt8.ofNat value.length] ++ value ++ [0])
  else .error (.invalidMessage "body signature exceeds 255 bytes")

def pushText (code signature : UInt8) : Option Text → Except Error Bytes
  | none => .ok fields
  | some value => pushStringFieldAt fields 0 code signature value.bytes

variable (outgoing : Outgoing)

/-- Fixed header with zeros, then the fields that are there, in code order. -/
def encodeFields (signature : Bytes) : Except Error Bytes := do
  let message := List.replicate fixedHeaderLen 0
  let message ← pushText message 1 111 outgoing.path
  let message ← pushText message 2 115 outgoing.interface
  let message ← pushText message 3 115 outgoing.member
  let message ← pushText message 4 115 outgoing.errorName
  let message := match outgoing.replySerial with
    | none => message
    | some value => pushU32FieldAt message 0 5 value
  let message ← pushText message 6 115 outgoing.destination
  if signature = [] then .ok message else pushSignatureFieldAt message 0 signature

def encodeOutgoing (body : Body) : Except Error EncodedMessage := do
  let message ← encodeFields outgoing body.signature.bytes
  let preliminary ← (body.serializedSize 0).elim (.error .body) .ok
  let unixFdCount := preliminary.2
  if unixFdCount > maxUnixFds then .error (.unixFdLimit unixFdCount maxUnixFds)
  else
    let message := if unixFdCount = 0 then message
      else pushU32FieldAt message 0 9 (UInt32.ofNat unixFdCount)
    let fieldsLen := message.length - fixedHeaderLen
    let headerLen := align message.length 8
    let bodySize ← (body.serializedSize headerLen).elim (.error .body) .ok
    let total ← (checkedAdd headerLen bodySize.1).elim (.error tooLarge) .ok
    if total > maxMessageSize then .error tooLarge
    else
      let fixed := [108, outgoing.kind.toByte, outgoing.flags, 1] ++ toLe 4 bodySize.1 ++
        toLe 4 outgoing.serial.toNat ++ toLe 4 fieldsLen
      let message := resize (fixed ++ message.drop fixedHeaderLen) headerLen
      let written ← (body.toWriter headerLen).elim (.error .body) .ok
      let frame := message ++ written.1
      if written.2.length ≠ unixFdCount ∨ frame.length ≠ total then
        .error (.invalidMessage "body changed while the D-Bus message was being serialized")
      else .ok ⟨frame, written.2⟩

end TensorDE.Dbus
