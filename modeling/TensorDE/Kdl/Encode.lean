import TensorDE.Kdl.Sink
import Mathlib.Data.Char
import Mathlib.Data.List.Lex

set_option linter.dupNamespace false

namespace TensorDE.Kdl

open Effect Utf8 List

/-- What a write may do with a sink: dump after dump, chained by `?`. -/
inductive Dumps : Write → Prop
  | skip : Dumps (pure ())
  | byte {c : UInt8} (h : c.toNat < 128) : Dumps (pushByte c)
  | str (s : Str) : Dumps (pushStr s)
  | byteN {c : UInt8} (h : c.toNat < 128) (n : Nat) : Dumps (pushByteN c n)
  | seq {x y : Write} (hx : Dumps x) (hy : Dumps y) : Dumps (x >>= fun _ => y)

def cut (buffer text : Bytes) : Bytes := text.take buffer.length ++ buffer.drop text.length

/-- The sink over `buffer` when `text` went into it, as far as there is room. -/
def filled (buffer text : Bytes) : WriteSink := .fixed (cut buffer text) (min text.length buffer.length)

/-- The text a write adds to a growing buffer, and the same text cut off at the
end of a bounded one. -/
def Prints (x : Write) (text : Bytes) : Prop :=
  (∀ buf, x (.grow buf) = .ok () (.grow (buf ++ text))) ∧
    ∀ buffer done : Bytes, done.length ≤ buffer.length →
      x (filled buffer done) =
        if buffer.length < done.length + text.length then
          .error (.error (overflow buffer.length)) (filled buffer (done ++ text))
        else .ok () (filled buffer (done ++ text))

section Cut

variable {buffer done raw : Bytes}

theorem length_cut : (cut buffer done).length = buffer.length := by
  simp only [cut, length_append, length_take, length_drop]
  omega

theorem cut_fits (h : done.length ≤ buffer.length) : cut buffer done = done ++ buffer.drop done.length := by
  rw [cut, take_of_length_le h]

theorem cut_full (h : buffer.length ≤ done.length) : cut buffer done = done.take buffer.length := by
  rw [cut, drop_eq_nil_of_le h, append_nil]

theorem filled_fits (h : done.length ≤ buffer.length) :
    filled buffer done = .fixed (done ++ buffer.drop done.length) done.length := by
  rw [filled, cut_fits h, Nat.min_eq_left h]

theorem filled_full (h : buffer.length ≤ done.length) :
    filled buffer done = .fixed (done.take buffer.length) buffer.length := by
  rw [filled, cut_full h, Nat.min_eq_right h]

theorem overlay_fits : overlay (done ++ buffer.drop done.length) done.length raw =
      (done ++ raw) ++ buffer.drop (done.length + raw.length) := by
  grind +splitImp +splitIndPred [overlay, drop_append, drop_drop, drop_eq_nil_of_le, Nat.add_sub_cancel_left]

theorem overlay_cut (hd : done.length ≤ buffer.length) (h : buffer.length < done.length + raw.length) :
    overlay (done ++ buffer.drop done.length) done.length (raw.take (buffer.length - done.length)) =
      (done ++ raw).take buffer.length := by
  grind +splitImp +splitIndPred [length_take, overlay_fits, Nat.add_sub_cancel']

end Cut

section Prints

variable {x y : Write} {text more : Bytes}

theorem Prints.skip : Prints (pure ()) [] := by
  refine ⟨fun buf => by simp, fun buffer done h => ?_⟩
  rw [append_nil, length_nil, Nat.add_zero, if_neg (by omega)]
  rfl

theorem Prints.str (s : Str) : Prints (pushStr s) (encode s) := by
  refine ⟨fun buf => rfl, fun buffer done hd => ?_⟩
  have hsize : (encode s).length = size s := rfl
  rw [filled_fits hd, pushStr]
  grind +splitImp +splitIndPred [filled_full, length_append, overlay_fits, filled_fits]

variable {c : UInt8}

section

variable (h : c.toNat < 128)
include h

theorem encode_ascii : encode [Char.ofNat c.toNat] = [c] := by
  have hofNat : (Char.ofNat c.toNat).toNat = c.toNat := by
    rw [Char.ofNat, dif_pos (Or.inl (by omega))]
    rfl
  rw [encode_cons, encode_nil, append_nil, encodeChar_ascii (by omega), hofNat, UInt8.ofNat_toNat]

theorem encode_replicate (n : Nat) : encode (replicate n (Char.ofNat c.toNat)) = replicate n c := by
  induction n with
  | zero => rfl
  | succ n ih =>
    rw [replicate_succ, ← singleton_append, encode_append, encode_ascii h, ih, replicate_succ]
    rfl

theorem Prints.byte : Prints (pushByte c) [c] := by
  refine ⟨fun buf => by rw [pushByte, encode_ascii h], fun buffer done hd => ?_⟩
  rw [filled_fits hd, pushByte]
  simp only [← cut_fits hd, length_cut, length_singleton]
  rw [cut_fits hd]
  by_cases hfull : buffer.length ≤ done.length
  · have hlen : done.length = buffer.length := by omega
    rw [if_pos hfull, if_pos (by omega), filled_full (by rw [length_append]; omega),
      take_append_of_le_length hfull, ← hlen, take_length, hlen, drop_length, append_nil]
  · rw [if_neg hfull, if_neg (by omega), filled_fits (by rw [length_append, length_singleton]; omega),
      length_append, length_singleton, set_append_right _ _ (Nat.le_refl _), Nat.sub_self,
      drop_eq_getElem_cons (by omega), set_cons_zero, append_assoc, singleton_append]

theorem Prints.byteN (n : Nat) : Prints (pushByteN c n) (replicate n c) := by
  cases n with
  | zero => exact Prints.skip
  | succ n =>
    refine ⟨fun buf => by grind [pushByteN, encode_replicate], fun buffer done hd => ?_⟩
    rw [filled_fits hd, length_replicate]
    simp only [pushByteN, Nat.add_one_ne_zero, if_false]
    simp only [← cut_fits hd, length_cut]
    rw [cut_fits hd]
    split
    next hlt =>
      rw [filled_full (by grind), take_left, take_append,
        take_of_length_le hd, take_replicate, Nat.min_eq_left (by omega)]
    grind +splitImp +splitIndPred [overlay_fits, filled_fits]

end

/-- A write behind another: the first that runs out of room ends both. -/
theorem Prints.seq (hx : Prints x text) (hy : Prints y more) : Prints (x >>= fun _ => y) (text ++ more) := by
  refine ⟨fun buf => by rw [bind_run, hx.1, ← append_assoc]; exact hy.1 _, fun buffer done hd => ?_⟩
  rw [bind_run, hx.2 buffer done hd, length_append]
  by_cases h : buffer.length < done.length + text.length
  · grind +splitImp +splitIndPred [filled_full]
  · rw [if_neg h]
    change y (filled buffer (done ++ text)) = _
    rw [hy.2 buffer (done ++ text) (by rw [length_append]; omega), length_append, append_assoc, Nat.add_assoc]

theorem Dumps.prints (h : Dumps x) : ∃ text, Prints x text := by
  induction h with
  | skip => exact ⟨[], .skip⟩
  | byte h => exact ⟨_, .byte h⟩
  | str s => exact ⟨_, .str s⟩
  | byteN h n => exact ⟨_, .byteN h n⟩
  | seq _ _ ihx ihy =>
    obtain ⟨text, hx⟩ := ihx
    obtain ⟨more, hy⟩ := ihy
    exact ⟨text ++ more, hx.seq hy⟩

end Prints

section Writers

variable {value : Write}

theorem dumps_indent (level : Nat) : Dumps (writeIndent level) := .byteN (by decide) _

theorem dumps_chars (s : Str) : Dumps (writeChars s) := by
  induction s with
  | nil => exact .skip
  | cons c s ih => exact .seq (.str _) ih

theorem dumps_quoted (s : Str) : Dumps (writeQuoted s) :=
  .seq (.byte (by decide)) (.seq (dumps_chars s) (.byte (by decide)))

theorem dumps_identOrString (s : Str) : Dumps (writeIdentOrString s) := by
  rw [writeIdentOrString]
  split
  · exact .str s
  · exact dumps_quoted s

theorem dumps_type (typeName : Option Str) : Dumps (writeType typeName) := by
  cases typeName with
  | none => exact .skip
  | some ty => exact .seq (.byte (by decide)) (.seq (dumps_identOrString ty) (.byte (by decide)))

theorem dumps_nodeHeader (indent : Nat) (typeName : Option Str) (name : Str) :
    Dumps (writeNodeHeader indent typeName name) :=
  .seq (dumps_indent indent) (.seq (dumps_type typeName) (dumps_identOrString name))

theorem dumps_propertyKey (key : Str) : Dumps (writePropertyKey key) :=
  .seq (.byte (by decide)) (.seq (dumps_identOrString key) (.byte (by decide)))

theorem dumps_nodeEndLeaf : Dumps writeNodeEndLeaf := .byte (by decide)

theorem dumps_argumentPrefix : Dumps writeArgumentPrefix := .byte (by decide)

theorem dumps_childrenClose (indent : Nat) : Dumps (writeChildrenClose indent) := .seq (dumps_indent indent) (.str _)

theorem dumps_flagLine (indent : Nat) (name : Str) : Dumps (writeFlagLine indent name) :=
  .seq (dumps_nodeHeader indent none name) dumps_nodeEndLeaf

theorem dumps_argNodeLine (indent : Nat) (name : Str) (h : Dumps value) : Dumps (writeArgNodeLine indent name value) :=
  .seq (dumps_nodeHeader indent none name) (.seq dumps_argumentPrefix (.seq h dumps_nodeEndLeaf))

theorem dumps_propNodeLine (indent : Nat) (name key : Str) (h : Dumps value) :
    Dumps (writePropNodeLine indent name key value) :=
  .seq (dumps_nodeHeader indent none name) (.seq (dumps_propertyKey key) (.seq h dumps_nodeEndLeaf))

end Writers

/-! What can be encoded. A value is kept with its implementation of the trait:
what it writes, which is dump after dump. -/

structure EncodeScalar where
  writeScalar : Write
  dumps : Dumps writeScalar

structure Encode where
  writeNode : Nat → Write
  writeNodeBody : Nat → Write
  writeNodeNamed : Nat → Str → Write
  dumpsNode : ∀ indent, Dumps (writeNode indent)
  dumpsBody : ∀ indent, Dumps (writeNodeBody indent)
  dumpsNamed : ∀ indent name, Dumps (writeNodeNamed indent name)

structure EncodePartial where
  writePartial : Nat → Write
  writePartialChildren : Nat → Write
  hasPartialChildren : Bool
  dumps : ∀ indent, Dumps (writePartial indent)
  dumpsChildren : ∀ indent, Dumps (writePartialChildren indent)

structure EncodeDocument where
  writeDocument : Write
  dumps : Dumps writeDocument

namespace EncodeScalar

def str (s : Str) : EncodeScalar := ⟨writeIdentOrString s, dumps_identOrString s⟩

def bool (v : Bool) : EncodeScalar := ⟨writeBool v, .str _⟩

/-- The integers but `u128`, which all go through `i128`. -/
def int (n : Int) : EncodeScalar := ⟨writeI128 n, .str _⟩

def u128 (n : Nat) : EncodeScalar := ⟨writeU128 n, .str _⟩

/-- `f64` and `f32`, with the text the float formatter makes of one. -/
def float {F : Type} (formatFloat : F → Str) (f : F) : EncodeScalar := ⟨pushStr (formatFloat f), .str _⟩

def option : Option EncodeScalar → EncodeScalar
  | some v => v
  | none => ⟨writeNull, .str _⟩

end EncodeScalar

def writeAll {α : Type} (write : α → Write) : List α → Write
  | [] => pure ()
  | item :: items => do
    write item
    writeAll write items

theorem dumps_all {α : Type} {write : α → Write} (h : ∀ item, Dumps (write item)) (items : List α) :
    Dumps (writeAll write items) := by
  induction items with
  | nil => exact .skip
  | cons item items ih => exact .seq (h item) ih

namespace Encode

def flag : Encode where
  writeNode indent := writeFlagLine indent "flag".toList
  writeNodeBody _ := writeNodeEndLeaf
  writeNodeNamed indent name := do
    writeNodeHeader indent none name
    writeNodeEndLeaf
  dumpsNode indent := dumps_flagLine indent _
  dumpsBody _ := dumps_nodeEndLeaf
  dumpsNamed indent name := dumps_flagLine indent name

/-- A field of a type with derived encoding, under its role. A field that is
optional and absent writes nothing. -/
inductive Field where
  | nodeName (name : Str)
  | typeName (name : Option Str)
  | arguments (values : List EncodeScalar)
  | properties (items : List (Str × EncodeScalar))
  | childArgument (key : Str) (value : Option EncodeScalar)
  | childProperty (key : Str) (value : Option EncodeScalar)
  | children (filter : Option Str) (nodes : List Encode)
  | flatten (part : EncodePartial)
  | skip

namespace Field

def writeArgument (v : EncodeScalar) : Write := do
  writeArgumentPrefix
  v.writeScalar

def writeProperty (item : Str × EncodeScalar) : Write := do
  writePropertyKey item.1
  item.2.writeScalar

/-- One argument is a list of one, a property map comes sorted by its keys. -/
def writeArgs : Field → Write
  | arguments values => writeAll writeArgument values
  | _ => pure ()

def writeProps : Field → Write
  | properties items => writeAll writeProperty (items.mergeSort fun a b => a.1 ≤ b.1)
  | _ => pure ()

variable (indent : Nat)

def writeFlatten : Field → Write
  | flatten part => part.writePartial indent
  | _ => pure ()

def writeChild (filter : Option Str) (node : Encode) : Write :=
  match filter with
  | some name => node.writeNodeNamed indent name
  | none => node.writeNode indent

def writeChildren : Field → Write
  | childArgument key value => writeAll (fun v => writeArgNodeLine indent key v.writeScalar) value.toList
  | childProperty key value => writeAll (fun v => writePropNodeLine indent key key v.writeScalar) value.toList
  | children filter nodes => writeAll (writeChild indent filter) nodes
  | _ => pure ()

def writeFlattenChildren : Field → Write
  | flatten part => part.writePartialChildren indent
  | _ => pure ()

def isChild : Field → Bool
  | childArgument _ _ | childProperty _ _ | children _ _ => true
  | _ => false

def hasFlattenChildren : Field → Bool
  | flatten part => part.hasPartialChildren
  | _ => false

def typeOf (fields : List Field) : Option Str :=
  (fields.filterMap fun | typeName name => some name | _ => none).getLast?.join

def nameOf (defaultName : Str) (fields : List Field) : Str :=
  (fields.filterMap fun | nodeName name => some name | _ => none).getLast?.getD defaultName

theorem dumps_args (field : Field) : Dumps field.writeArgs := by
  cases field with
  | arguments values => exact dumps_all (fun v => .seq dumps_argumentPrefix v.dumps) values
  | _ => exact .skip

theorem dumps_props (field : Field) : Dumps field.writeProps := by
  cases field with
  | properties items => exact dumps_all (fun item : Str × EncodeScalar => .seq (dumps_propertyKey item.1) item.2.dumps) _
  | _ => exact .skip

theorem dumps_flatten (indent : Nat) (field : Field) : Dumps (field.writeFlatten indent) := by
  cases field with
  | flatten part => exact part.dumps indent
  | _ => exact .skip

theorem dumps_children (indent : Nat) (field : Field) : Dumps (field.writeChildren indent) := by
  cases field with
  | childArgument key value => exact dumps_all (fun v => dumps_argNodeLine indent key v.dumps) _
  | childProperty key value => exact dumps_all (fun v => dumps_propNodeLine indent key key v.dumps) _
  | children filter nodes =>
    refine dumps_all (fun node => ?_) nodes
    cases filter with
    | none => exact node.dumpsNode indent
    | some name => exact node.dumpsNamed indent name
  | _ => exact .skip

theorem dumps_flattenChildren (indent : Nat) (field : Field) : Dumps (field.writeFlattenChildren indent) := by
  cases field with
  | flatten part => exact part.dumpsChildren indent
  | _ => exact .skip

end Field

variable (fields : List Field)

def writeBlock (indent : Nat) : Write :=
  if fields.any Field.isChild || fields.any Field.hasFlattenChildren then do
    writeChildrenOpen
    writeAll (Field.writeChildren (indent + 1)) fields
    writeAll (Field.writeFlattenChildren (indent + 1)) fields
    writeChildrenClose indent
  else writeNodeEndLeaf

def writeBody (indent : Nat) : Write := do
  writeAll Field.writeArgs fields
  writeAll Field.writeProps fields
  writeAll (Field.writeFlatten indent) fields
  writeBlock fields indent

theorem dumps_body (fields : List Field) (indent : Nat) : Dumps (writeBody fields indent) := by
  refine .seq (dumps_all Field.dumps_args fields) (.seq (dumps_all Field.dumps_props fields)
    (.seq (dumps_all (Field.dumps_flatten indent) fields) ?_))
  rw [writeBlock]
  split
  · exact .seq (.str _) (.seq (dumps_all (Field.dumps_children (indent + 1)) fields)
      (.seq (dumps_all (Field.dumps_flattenChildren (indent + 1)) fields) (dumps_childrenClose indent)))
  · exact dumps_nodeEndLeaf

def derived (defaultName : Str) (fields : List Field) : Encode where
  writeNode indent := do
    writeNodeHeader indent (Field.typeOf fields) (Field.nameOf defaultName fields)
    writeBody fields indent
  writeNodeBody := writeBody fields
  writeNodeNamed indent name := do
    writeNodeHeader indent (Field.typeOf fields) name
    writeBody fields indent
  dumpsNode indent := .seq (dumps_nodeHeader indent _ _) (dumps_body fields indent)
  dumpsBody := dumps_body fields
  dumpsNamed indent name := .seq (dumps_nodeHeader indent _ name) (dumps_body fields indent)

variable (name : Str)

def unitVariant : Encode where
  writeNode indent := writeFlagLine indent name
  writeNodeBody _ := writeNodeEndLeaf
  writeNodeNamed := writeFlagLine
  dumpsNode indent := dumps_flagLine indent name
  dumpsBody _ := dumps_nodeEndLeaf
  dumpsNamed := dumps_flagLine

/-- A variant around one value, or around named fields. -/
def newtypeVariant (inner : Encode) : Encode where
  writeNode indent := inner.writeNodeNamed indent name
  writeNodeBody := inner.writeNodeBody
  writeNodeNamed := inner.writeNodeNamed
  dumpsNode indent := inner.dumpsNamed indent name
  dumpsBody := inner.dumpsBody
  dumpsNamed := inner.dumpsNamed

end Encode

namespace EncodeDocument

def node (value : Encode) : EncodeDocument := ⟨value.writeNode 0, value.dumpsNode 0⟩

def vec (items : List Encode) : EncodeDocument :=
  ⟨writeAll (fun item => item.writeNode 0) items, dumps_all (fun item => item.dumpsNode 0) items⟩

def writeTop (field : Encode.Field) : Write := do
  field.writeChildren 0
  field.writeFlattenChildren 0

def childrenOnly (fields : List Encode.Field) : EncodeDocument :=
  ⟨writeAll writeTop fields,
    dumps_all (fun field => .seq (field.dumps_children 0) (field.dumps_flattenChildren 0)) fields⟩

end EncodeDocument

section Entry

def okCtx (consumed : Nat) : ErrorCtx := ⟨consumed, .none, none, none⟩

def finish (code : ErrorCode → ErrorCode) : EStateM.Result (Fault ErrorCtx) WriteSink Unit → Option ErrorCtx × WriteSink
  | .ok _ sink => (some (okCtx sink.written), sink)
  | .error (.error e) sink => (some ⟨sink.written, code e.code, e.message, e.expected⟩, sink)
  | .error _ sink => (none, sink)

variable (value : EncodeDocument)

def writeInto : Option ErrorCtx × Bytes :=
  let r := finish id (value.writeDocument .string)
  (r.1, r.2.bytes)

def sliceCode (code : ErrorCode) : ErrorCode := if code = .none then .bufferOverflow else code

def writeIntoSlice (buffer : Bytes) : Option ErrorCtx × Bytes :=
  let r := finish sliceCode (value.writeDocument (.slice buffer))
  (r.1, r.2.bytes)

variable {value : EncodeDocument} {text : Bytes}

theorem writeInto_eq (h : Prints value.writeDocument text) : writeInto value = (some (okCtx text.length), text) := by
  simp only [writeInto, WriteSink.string, h.1 [], finish, nil_append, WriteSink.written, WriteSink.bytes]

theorem filled_nil (buffer : Bytes) : filled buffer [] = .slice buffer := by
  rw [filled_fits (Nat.zero_le _)]
  rfl

theorem writeIntoSlice_eq (h : Prints value.writeDocument text) (buffer : Bytes) : writeIntoSlice value buffer =
      (some (if buffer.length < text.length then overflow buffer.length else okCtx text.length), cut buffer text) := by
  have hrun := h.2 buffer [] (Nat.zero_le _)
  rw [filled_nil, nil_append, length_nil, Nat.zero_add] at hrun
  rw [writeIntoSlice, hrun]
  by_cases hlt : buffer.length < text.length
  · rw [if_pos hlt, if_pos hlt, filled, Nat.min_eq_right hlt.le]
    rfl
  · rw [if_neg hlt, if_neg hlt, filled, Nat.min_eq_left (not_lt.mp hlt)]
    rfl

/-- A bounded buffer holds the head of the text a growing one gets, whatever dump
the overflow falls into. -/
theorem writeIntoSlice_cut (value : EncodeDocument) (buffer : Bytes) :
    ∃ text ec, writeInto value = (some (okCtx text.length), text) ∧ writeIntoSlice value buffer =
        (some ec, text.take (min buffer.length text.length) ++ buffer.drop text.length) ∧
      ((ec.code = .bufferOverflow ∧ ec.consumed = buffer.length) ↔ buffer.length < text.length) := by
  obtain ⟨text, htext⟩ := value.dumps.prints
  refine ⟨text, if buffer.length < text.length then overflow buffer.length else okCtx text.length,
    writeInto_eq htext, ?_, ?_⟩
  · rw [writeIntoSlice_eq htext, cut, take_eq_take_min]
  · split
    next h => exact ⟨fun _ => h, fun _ => ⟨rfl, rfl⟩⟩
    next h =>
      refine ⟨fun hcode => ?_, fun hlt => absurd hlt h⟩
      cases hcode.1

end Entry

end TensorDE.Kdl
