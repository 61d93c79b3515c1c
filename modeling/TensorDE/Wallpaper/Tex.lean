import TensorDE.Lib.Exact
import TensorDE.Lib.Codec

namespace TensorDE.Wallpaper

open Effect Codec

inductive TexParseError where
  | truncated (field : String)
  | offsetOverflow
  | invalidTag (field value : String)
  | missingTexb
  | unsupportedTexb (tag : String)
  | unsupportedTexs (tag : String)
  | invalidPayload (message : String)
  | unsupportedCompression (value : UInt32)
  | unsupportedRuntimeFormat (value : UInt32)
  | unsupportedComparisonSampler (seed : UInt32)
  | invalidLevelSize (runtimeFormat width height : UInt32) (expected actual : Nat)
  | lz4 (message : String)
  | image (message : String)
  | blockCompression (message : String)
deriving DecidableEq

namespace Tex

def getRange (data : Bytes) (start stop : Nat) : Option Bytes :=
  if start ≤ stop ∧ stop ≤ data.length then some ((data.drop start).take (stop - start)) else none

theorem getRange_eq_some {data bytes : Bytes} {start stop : Nat} (hstart : start ≤ data.length) :
    getRange data start stop = some bytes ↔ start + bytes.length = stop ∧ bytes <+: data.drop start := by
  rw [getRange]
  constructor
  · grind
  · rintro ⟨rfl, post, hpost⟩
    grind [List.take_left]

end Tex

end TensorDE.Wallpaper
