import Mathlib.Tactic

namespace TensorDE

abbrev Bytes := List UInt8

namespace Bytes

def ofAscii (s : String) : Bytes := s.toList.map fun c => c.toNat.toUInt8

variable (b : UInt8)

def isDigit : Bool := 48 ≤ b && b ≤ 57

def isAlphabetic : Bool := (65 ≤ b && b ≤ 90) || (97 ≤ b && b ≤ 122)

def isAlphanumeric : Bool := isAlphabetic b || isDigit b

theorem forall_byte {P : UInt8 → Prop} [DecidablePred P] (h : (List.range 256).all (fun n => P (UInt8.ofNat n)) = true)
    (byte : UInt8) : P byte := by
  have hbyte := List.all_eq_true.mp h byte.toNat (List.mem_range.mpr byte.toNat_lt)
  simpa using hbyte

def isUtf8 (bytes : Bytes) : Bool := (ByteArray.mk bytes.toArray).validateUTF8

theorem sorted_mergeSort (l : List Bytes) : l.mergeSort.Pairwise (· ≤ ·) := by
  grind [List.pairwise_mergeSort]

end Bytes

structure Text where
  bytes : Bytes
  valid : Bytes.isUtf8 bytes = true
deriving DecidableEq

end TensorDE
