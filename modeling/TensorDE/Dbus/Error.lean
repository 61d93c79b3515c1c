import TensorDE.Lib.Bytes

namespace TensorDE.Dbus

/-- The errors the modelled parts of the crate return. Texts built from a literal
and numbers are kept; where a text quotes received bytes or a foreign error, the
literal and the bytes are kept side by side. -/
inductive Error where
  | io (reason : String)
  | connectionUnusable
  | authentication (text : String)
  | authenticationAbout (value : Bytes)
  | guidMismatch (expected received : Bytes)
  | authenticationAfter (text : String) (cause : Error)
  | invalidMessage (text : String)
  | invalidMessageAbout (text : String) (value : Bytes)
  | messageTooLarge (limit : Nat)
  | pendingQueueFull (limit : Nat)
  | pendingBytesFull (limit : Nat)
  | abandonedReplyQueueFull (limit : Nat)
  | serialExhausted
  | unixFdUnsupported
  | unixFdLimit (count limit : Nat)
  | invalidName (kind : String) (value : Bytes)
  | reservedInterface (interface : Bytes)
  | duplicateMethod (path interface member : Bytes)
  | duplicateProperty (path interface property : Bytes)
  | duplicateSignal (path interface signal : Bytes)
  | body
deriving DecidableEq

end TensorDE.Dbus
