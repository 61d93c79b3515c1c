import TensorDE.Lib.Cursor
import TensorDE.Scene.Abi

set_option linter.dupNamespace false

namespace TensorDE.Scene

open Effect Codec Cursor List

inductive SceneBinaryError where
  | invalidMagic
  | unsupportedVersion (version : UInt32)
  | unsupportedEndianness (value : UInt8)
  | missingChunk (kind : UInt32)
  | duplicateChunk (kind : UInt32)
  | invalidChunkValue (name : String) (value : UInt32)
  | invalidUtf8
  | truncated (name : String)
  | sizeOverflow (name : String)
  | countMismatch (chunk : String) (expected : UInt32) (actual : Nat)

def putU32 (value : UInt32) : Bytes := toLe 4 value.toNat

def putI32 (value : Int32) : Bytes := toLe 4 value.toUInt32.toNat

def putI64 (value : Int64) : Bytes := toLe 8 value.toUInt64.toNat

def putU64 (value : UInt64) : Bytes := toLe 8 value.toNat

def putF32 (value : F32) : Bytes := toLe 4 value.bits.toNat

def putBool (value : Bool) : Bytes := [value.toUInt8]

def putStringId (value : SceneStringId) : Bytes := putU32 value.val

def putResourceId (value : SceneResourceId) : Bytes := putU32 value.val

def putVec3 (value : SceneVec3) : Bytes := [putF32 value.x, putF32 value.y, putF32 value.z].flatten

def putTag {α : Type} [Tag α] (value : α) : Bytes := putU32 (Tag.toU32 value)

variable (value : Nat)

def checkedU32 (name : String) : Except SceneBinaryError UInt32 :=
  if value < 2 ^ 32 then .ok (UInt32.ofNat value) else .error (.sizeOverflow name)

def checkedU64 (name : String) : Except SceneBinaryError UInt64 :=
  if value < 2 ^ 64 then .ok (UInt64.ofNat value) else .error (.sizeOverflow name)

/-- What the errors of a decoder call the payload. -/
structure Labels where
  (overflow truncated bool : String)

def chunkLabels : Labels := ⟨"decode offset", "chunk payload", "bool"⟩

def timelineLabels : Labels := ⟨"timeline decoder offset", "timeline", "timeline bool"⟩

abbrev Decoder (α : Type) := Cursor.Decode Labels (Fault SceneBinaryError) α

namespace Decoder

def bytes (len : Nat) : Decoder Bytes := do
  let decoder ← get
  match checkedAdd decoder.offset len with
  | none => fail (.sizeOverflow decoder.context.overflow)
  | some stop =>
    if stop ≤ decoder.data.length then
      let bytes ← slice decoder.data decoder.offset stop
      set { decoder with offset := stop }
      return bytes
    else fail (.truncated decoder.context.truncated)

/-- The bytes as an array of `width`, for which there must be just as many. -/
def word (width : Nat) : Decoder Nat := do
  let bytes ← bytes width
  if bytes.length = width then return ofLe bytes else throw .panic

def u32 : Decoder UInt32 := return UInt32.ofNat (← word 4)

def i32 : Decoder Int32 := return (UInt32.ofNat (← word 4)).toInt32

def i64 : Decoder Int64 := return (UInt64.ofNat (← word 8)).toInt64

def u64 : Decoder UInt64 := return UInt64.ofNat (← word 8)

def f32 : Decoder F32 := return ⟨UInt32.ofNat (← word 4)⟩

def bool : Decoder Bool := do
  match (← bytes 1).head? with
  | none => fail (.truncated (← get).context.bool)
  | some byte => return byte != 0

def stringId : Decoder SceneStringId := return ⟨← u32⟩

def resourceId : Decoder SceneResourceId := return ⟨← u32⟩

def vec3 : Decoder SceneVec3 := return { x := ← f32, y := ← f32, z := ← f32 }

def remaining : Decoder Nat := return (← get).data.length - (← get).offset

variable (name : String)

def checkTag {α : Type} [Tag α] (raw : UInt32) : Decoder α :=
  match Tag.fromU32 raw with
  | some a => pure a
  | none => fail (.invalidChunkValue name raw)

def tag {α : Type} [Tag α] : Decoder α := do
  let raw ← u32
  checkTag name raw

def table {α : Type} (record : Decoder α) : Decoder (List α) := do
  let count ← u32
  items record count.toNat

def run {α : Type} (labels : Labels) (decode : Decoder α) (data : Bytes) : Except (Fault SceneBinaryError) α :=
  match decode ⟨labels, data, 0⟩ with
  | .ok a _ => .ok a
  | .error e _ => .error e

end Decoder

/-- The count written as a cast, so that it must fit. -/
def putTable {α : Type} (put : α → Bytes) (records : List α) : Bytes :=
  putU32 (UInt32.ofNat records.length) ++ records.flatMap put

def encodeTable {α : Type} (name : String) (put : α → Bytes) (records : List α) : Except SceneBinaryError Bytes := do
  let count ← checkedU32 records.length name
  return putU32 count ++ records.flatMap put

section Laws

open Decoder

variable {α : Type}

theorem reads_bytes (v : Bytes) : Reads (bytes v.length) v v := by
  intro context pre post hsize
  have hle : pre.length + v.length ≤ (pre ++ v ++ post).length := by simp
  have hadd : checkedAdd pre.length v.length = some (pre.length + v.length) := if_pos (by omega)
  have hslice : ((pre ++ v ++ post).drop pre.length).take v.length = v := by simp
  have hrange : pre.length ≤ pre.length + v.length ∧ pre.length + v.length ≤ (pre ++ v ++ post).length :=
    ⟨Nat.le_add_right _ _, hle⟩
  simp only [bytes, bind_run, get_run, hadd, if_pos hle, slice, if_pos hrange, Nat.add_sub_cancel_left, hslice, pure_run,
    set_run]

variable {a : α}

theorem reads_toLe {width n : Nat} (h : n < 256 ^ width) (decode : Nat → α) (ha : decode n = a) :
    Reads (do return decode (← word width)) (toLe width n) a := by
  have hbytes := reads_bytes (toLe width n)
  rw [length_toLe] at hbytes
  have hword : Reads (word width) (toLe width n) n := by
    have hpure : Reads (if (toLe width n).length = width then pure (ofLe (toLe width n)) else throw .panic : Decoder Nat)
        [] n := by
      rw [if_pos (length_toLe width n), ofLe_toLe h]
      exact Reads.pure n
    have hread := hbytes.bind (f := fun v => if v.length = width then pure (ofLe v) else throw .panic) hpure
    rwa [append_nil] at hread
  have hread := hword.bind_pure decode
  rwa [ha] at hread

instance : Decodes u32 putU32 where
  reads value := reads_toLe value.toNat_lt UInt32.ofNat (by simp)

instance : Decodes i32 putI32 where
  reads value := reads_toLe value.toUInt32.toNat_lt (fun n => (UInt32.ofNat n).toInt32) (by simp)

instance : Decodes i64 putI64 where
  reads value := reads_toLe value.toUInt64.toNat_lt (fun n => (UInt64.ofNat n).toInt64) (by simp)

instance : Decodes u64 putU64 where
  reads value := reads_toLe value.toNat_lt UInt64.ofNat (by simp)

instance : Decodes f32 putF32 where
  reads value := reads_toLe value.bits.toNat_lt (fun n => F32.mk (UInt32.ofNat n)) (by simp)

instance : Decodes bool putBool where
  reads value := by
    have hpure : Reads (pure (value.toUInt8 != 0) : Decoder Bool) [] value := by
      cases value <;> exact Reads.pure _
    exact (reads_bytes [value.toUInt8]).bind hpure

instance : Decodes stringId putStringId where
  reads value := by
    have h : Reads u32 (putU32 value.val) value.val := Decodes.reads _
    exact h.bind_pure SceneStringId.mk

instance : Decodes resourceId putResourceId where
  reads value := by
    have h : Reads u32 (putU32 value.val) value.val := Decodes.reads _
    exact h.bind_pure SceneResourceId.mk

instance : Decodes vec3 putVec3 where
  reads _ := Fields.reads (by repeat constructor)

instance [Tag α] (name : String) (a : α) : Yields (checkTag name (Tag.toU32 a)) a where
  run s := by simp [checkTag, Tag.fromU32_toU32, pure, EStateM.pure]

instance [Tag α] (name : String) : Decodes (tag name) (putTag : α → Bytes) where
  reads a := by
    have h : Reads u32 (putU32 (Tag.toU32 a)) (Tag.toU32 a) := Decodes.reads _
    have hcheck : Reads (checkTag name (Tag.toU32 a)) [] a := Yields.reads
    have hread := h.bind hcheck
    rwa [append_nil] at hread

variable {put : α → Bytes} {records : List α}

theorem reads_table {record : Decoder α} (hlen : records.length < 2 ^ 32)
    (h : ∀ a ∈ records, Reads record (put a) a) : Reads (table record) (putTable put records) records := by
  have hcount : (UInt32.ofNat records.length).toNat = records.length := by
    rw [UInt32.toNat_ofNat', Nat.mod_eq_of_lt hlen]
  have hitems : Reads (items record (UInt32.ofNat records.length).toNat) (records.flatMap put) records := by
    rw [hcount]
    exact reads_items h
  have hu32 : Reads u32 (putU32 (UInt32.ofNat records.length)) (UInt32.ofNat records.length) := Decodes.reads _
  exact hu32.bind hitems

theorem run_of_reads {decode : Decoder α} {data : Bytes} (h : Reads decode data a)
    (hsize : data.length < 2 ^ 64) (labels : Labels) : run labels decode data = .ok a := by
  have hrun := h labels [] [] (by simpa using hsize)
  grind [run]

theorem checkedU32_ok {value : Nat} (h : value < 2 ^ 32) (name : String) :
    checkedU32 value name = .ok (UInt32.ofNat value) := if_pos h

theorem encodeTable_ok (h : records.length < 2 ^ 32) (name : String) :
    encodeTable name put records = .ok (putTable put records) := by
  rw [encodeTable, checkedU32_ok h]
  rfl

end Laws

end TensorDE.Scene
