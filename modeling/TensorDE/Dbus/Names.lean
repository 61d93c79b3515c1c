import TensorDE.Dbus.Error

namespace TensorDE.Dbus

open Bytes

def maxNameLen : Nat := 255

def dot : UInt8 := 46
def underscore : UInt8 := 95
def dash : UInt8 := 45
def colon : UInt8 := 58

variable (byte : UInt8)

def isAlphaOrUnderscore : Bool := isAlphabetic byte || byte == underscore

def isWellKnownStart : Bool := isAlphaOrUnderscore byte || byte == dash

def isBusNameByte : Bool := isAlphanumeric byte || byte == underscore || byte == dash

def isMemberByte : Bool := isAlphanumeric byte || byte == underscore

def validElement (start rest : UInt8 → Bool) : Bytes → Bool
  | [] => false
  | first :: tail => start first && tail.all rest

def validateDotted (bytes : Bytes) (validStart validByte : UInt8 → Bool) : Bool :=
  bytes.contains dot && (bytes.splitOn dot).all (validElement validStart validByte)

variable (value : Bytes)

def isUniqueName : Bool :=
  if value = ofAscii "org.freedesktop.DBus" then true
  else value.length ≤ maxNameLen &&
    match value with
    | first :: name => first == colon && validateDotted name isBusNameByte isBusNameByte
    | [] => false

def isWellKnownName : Bool :=
  value.length ≤ maxNameLen && validateDotted value isWellKnownStart isBusNameByte

def isInterfaceName : Bool :=
  value.length ≤ maxNameLen && validateDotted value isAlphaOrUnderscore isMemberByte

def isMemberName : Bool :=
  value.length ≤ maxNameLen && validElement isAlphaOrUnderscore isMemberByte value

def validateName (valid : Bytes → Bool) (value : Bytes) (kind : String) : Except Error Unit :=
  if valid value then .ok () else .error (.invalidName kind value)

def validateBusName : Bytes → String → Except Error Unit :=
  validateName fun value => isUniqueName value || isWellKnownName value

def validateUniqueName : Bytes → String → Except Error Unit := validateName isUniqueName

def validateWellKnownName : Bytes → String → Except Error Unit := validateName isWellKnownName

def validateInterfaceName : Bytes → String → Except Error Unit := validateName isInterfaceName

def validateErrorName : Bytes → String → Except Error Unit := validateInterfaceName

def validateMemberName : Bytes → String → Except Error Unit := validateName isMemberName

example : isUniqueName (ofAscii ":1.42") = true := by decide

end TensorDE.Dbus
