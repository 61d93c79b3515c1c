import TensorDE.Lib.Utf8

set_option linter.dupNamespace false

namespace TensorDE.Kdl

open Utf8

inductive ErrorCode where
  | none | unexpectedEof | syntaxError | invalidEscape | invalidNumber | invalidIdent | invalidKeyword
  | expectedNodeName | expectedValue | expectedEquals | expectedBrace | expectedTerminator
  | unknownProperty | unknownChild | missingProperty | missingArgument | missingChild | duplicateProperty
  | typeMismatch | exceededMaxDepth | exceededLimit | disallowedCodePoint | unexpectedToken
  | noReadInput | bufferOverflow
deriving DecidableEq, Repr

structure ErrorCtx where
  consumed : Nat
  code : ErrorCode
  message : Option String
  expected : Option String
deriving DecidableEq

namespace ErrorCtx

def new (code : ErrorCode) (consumed : Nat) : ErrorCtx := ⟨consumed, code, none, none⟩

variable (e : ErrorCtx)

def withConsumed (consumed : Nat) : ErrorCtx := { e with consumed }

def withMessage (message : String) : ErrorCtx := { e with message := some message }

def withExpected (expected : String) : ErrorCtx := { e with expected := some expected }

/-- An error of a callback without a place of its own is put at the entry that caused it. -/
def anchor (offset : Nat) (e : ErrorCtx) : ErrorCtx := if e.consumed = 0 then e.withConsumed offset else e

end ErrorCtx

variable (c : Char)

def isUnicodeSpace : Bool :=
  c.toNat ∈ [0x0009, 0x0020, 0x00A0, 0x1680, 0x2000, 0x2001, 0x2002, 0x2003, 0x2004, 0x2005, 0x2006, 0x2007, 0x2008,
    0x2009, 0x200A, 0x202F, 0x205F, 0x3000]

def isNewlineChar : Bool := c.toNat ∈ [0x000D, 0x000A, 0x0085, 0x000B, 0x000C, 0x2028, 0x2029]

def isDisallowedLiteral : Bool :=
  let u := c.toNat
  u ≤ 0x0008 || 0x000E ≤ u && u ≤ 0x001F || u = 0x007F || 0x200E ≤ u && u ≤ 0x200F || 0x202A ≤ u && u ≤ 0x202E ||
    0x2066 ≤ u && u ≤ 0x2069 || u = 0xFEFF

def isNonIdentifierChar : Bool :=
  isUnicodeSpace c || isNewlineChar c || c ∈ ['\\', '/', '(', ')', '{', '}', ';', '[', ']', '"', '#', '='] ||
    isDisallowedLiteral c

def isAsciiDigit : Bool := '0' ≤ c && c ≤ '9'

def isAsciiHexdigit : Bool := isAsciiDigit c || 'a' ≤ c && c ≤ 'f' || 'A' ≤ c && c ≤ 'F'

def isAsciiAlphanumeric : Bool := isAsciiDigit c || 'a' ≤ c && c ≤ 'z' || 'A' ≤ c && c ≤ 'Z'

variable {c : Char}

theorem isAsciiDigit_iff : isAsciiDigit c = true ↔ 48 ≤ c.toNat ∧ c.toNat ≤ 57 := by
  simp only [isAsciiDigit, Bool.and_eq_true, decide_eq_true_eq]
  rfl

theorem isAsciiHexdigit_iff : isAsciiHexdigit c = true ↔
      48 ≤ c.toNat ∧ c.toNat ≤ 57 ∨ 97 ≤ c.toNat ∧ c.toNat ≤ 102 ∨ 65 ≤ c.toNat ∧ c.toNat ≤ 70 := by
  rw [isAsciiHexdigit, Bool.or_eq_true, Bool.or_eq_true, isAsciiDigit_iff, or_assoc]
  simp only [Bool.and_eq_true, decide_eq_true_eq]
  rfl

/-- The double a literal stands for. A decimal literal is kept as it is written:
rounding it to binary is the standard library's. -/
inductive F64 where
  | infinity
  | negInfinity
  | nan
  | nearest (literal : Str)
deriving DecidableEq

inductive Value where
  | string (s : Str)
  | int (n : Int)
  | float (value : F64) (raw : Option Str)
  | bool (b : Bool)
  | null
deriving DecidableEq

inductive Entry where
  | argument (typeName : Option Str) (value : Value)
  | property (key : Str) (typeName : Option Str) (value : Value)
deriving DecidableEq

structure Node where
  typeName : Option Str
  name : Str
  entries : List Entry
  children : List Node

structure Document where
  nodes : List Node

structure Opts where
  errorOnUnknownKeys : Bool
  errorOnMissingKeys : Bool
  partialRead : Bool
  validateTrailing : Bool
deriving DecidableEq

def Opts.new : Opts := ⟨true, false, false, true⟩

def Opts.lenient : Opts := ⟨false, false, false, true⟩

end TensorDE.Kdl
