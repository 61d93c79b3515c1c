import Mathlib.Data.Nat.Bitwise
import TensorDE.Dbus.DecodeSafety
import TensorDE.Dbus.Encode

namespace TensorDE.Dbus

open Effect Bytes Codec List

/-- One header field as it stands in a message. -/
inductive Field where
  | text (code signature : UInt8) (value : Text)
  | number (code : UInt8) (value : UInt32)
  | signature (value : Text)

namespace Field

def code : Field → UInt8
  | .text code _ _ => code
  | .number code _ => code
  | .signature _ => 8

def typeByte : Field → UInt8
  | .text _ type _ => type
  | .number _ _ => 117
  | .signature _ => 103

def content : Field → Bytes
  | .text _ _ value => toLe 4 value.bytes.length ++ value.bytes ++ [0]
  | .number _ value => toLe 4 value.toNat
  | .signature value => UInt8.ofNat value.bytes.length :: value.bytes ++ [0]

def payload (f : Field) : Bytes := [f.code, 1, f.typeByte, 0] ++ f.content

/-- What the decoder reads from the field whose first byte stands at `start`. -/
def value (start : Nat) : Field → FieldValue
  | .text _ _ value => .text ⟨start + 8, start + 8 + value.bytes.length⟩
  | .number _ value => .number value
  | .signature value => .signature ⟨start + 5, start + 5 + value.bytes.length⟩

def Valid : Field → Prop
  | .text code type value =>
    (type = 115 ∨ type = 111) ∧ knownFieldSignature code = some [type] ∧ value.bytes.length < 2 ^ 32
  | .number code _ => knownFieldSignature code = some [117]
  | .signature value => value.bytes.length < 256

theorem Valid.known {f : Field} (h : f.Valid) : knownFieldSignature f.code = some [f.typeByte] := by
  cases f with
  | text code type value => exact h.2.1
  | number code value => exact h
  | signature value => rfl

end Field

section Reading

variable {z : Zvariant} {bytes pre post : Bytes} (fieldsEnd : Nat)

theorem take_run (bytes pre v post : Bytes) (h : bytes = pre ++ v ++ post)
    (he : pre.length + v.length ≤ fieldsEnd) (hsize : bytes.length < 2 ^ 64) :
    take bytes fieldsEnd v.length pre.length = .ok v (pre.length + v.length) := by
  have hlen : bytes.length = pre.length + v.length + post.length := by simp [h, Nat.add_assoc]
  have hsl := slice_run (σ := Nat) bytes pre.length v.length (by omega) pre.length
  have hv : (bytes.drop pre.length).take v.length = v := by simp [h]
  rw [hv] at hsl
  have h1 : ¬ (pre.length + v.length > fieldsEnd ∨ pre.length + v.length > bytes.length) := by omega
  simp [take, checkedAdd_eq (show pre.length + v.length < 2 ^ 64 by omega), h1, hsl]

theorem takeU8_run (bytes pre : Bytes) (b : UInt8) (post : Bytes) (h : bytes = pre ++ b :: post)
    (he : pre.length + 1 ≤ fieldsEnd) (hsize : bytes.length < 2 ^ 64) :
    takeU8 bytes fieldsEnd pre.length = .ok b (pre.length + 1) := by
  have ht := take_run fieldsEnd bytes pre [b] post (by simpa using h) he hsize
  simp only [length_singleton] at ht
  simp [takeU8, ht, byteAt]

theorem takeU32_run (bytes pre : Bytes) (n : Nat) (post : Bytes) (hn : n < 2 ^ 32)
    (h : bytes = pre ++ toLe 4 n ++ post) (he : pre.length + 4 ≤ fieldsEnd) (hsize : bytes.length < 2 ^ 64) :
    takeU32 bytes fieldsEnd .little pre.length = .ok (UInt32.ofNat n) (pre.length + 4) := by
  have ht := take_run fieldsEnd bytes pre (toLe 4 n) post h (by simpa using he) hsize
  simp only [length_toLe] at ht
  simp [takeU32, ht, readU32, ofLe_toLe (show n < 256 ^ 4 by omega)]

theorem alignFieldPosition_run (bytes pre post : Bytes) (alignment : Nat) (ha : 0 < alignment) (hsmall : alignment ≤ 8)
    (h : bytes = pre ++ replicate (align pre.length alignment - pre.length) 0 ++ post)
    (he : align pre.length alignment ≤ fieldsEnd) (hsize : bytes.length + 8 < 2 ^ 64) :
    alignFieldPosition bytes fieldsEnd alignment pre.length = .ok () (align pre.length alignment) := by
  have hal := (align_spec pre.length alignment ha).1
  have hlen : pre.length ≤ bytes.length := by simp [h]
  have ht := take_run fieldsEnd bytes pre _ post h (by simp; omega) (by omega)
  simp only [length_replicate] at ht
  simp [alignFieldPosition, alignUsize_run _ _ (show pre.length + alignment < 2 ^ 64 by omega), subUsize, hal,
    ht, validateZeroPadding]

theorem takeStringRange_run (bytes pre : Bytes) (value : Text) (post : Bytes)
    (h : bytes = pre ++ value.bytes ++ 0 :: post)
    (he : pre.length + value.bytes.length + 1 ≤ fieldsEnd) (hsize : bytes.length < 2 ^ 64) :
    takeStringRange bytes fieldsEnd value.bytes.length pre.length =
      .ok ⟨pre.length, pre.length + value.bytes.length⟩ (pre.length + value.bytes.length + 1) := by
  have hlen : bytes.length = pre.length + value.bytes.length + (post.length + 1) := by
    simp [h, Nat.add_assoc]
  have ht := take_run fieldsEnd bytes pre value.bytes _ h (by omega) hsize
  have hu := takeU8_run fieldsEnd bytes (pre ++ value.bytes) 0 post h (by simpa using he) hsize
  simp only [length_append] at hu
  simp [takeStringRange, ht, hu, value.valid,
    addUsize_run (show pre.length + value.bytes.length < 2 ^ 64 by omega)]

variable {f : Field}

theorem readFieldHead_run (hf : f.Valid) (h : bytes = pre ++ f.payload ++ post)
    (he : pre.length + f.payload.length ≤ fieldsEnd) (hsize : bytes.length < 2 ^ 64) :
    readFieldHead bytes fieldsEnd pre.length = .ok (f.code, pre.length + 1, [f.typeByte]) (pre.length + 4) := by
  have hcode : f.code ≠ 0 := by
    intro h0
    have hk := hf.known
    rw [h0] at hk
    cases hk
  simp only [Field.payload, length_append, length_cons, length_nil] at he
  have h1 := takeU8_run fieldsEnd bytes pre f.code ([1, f.typeByte, 0] ++ f.content ++ post)
    (by simp [h, Field.payload]) (by omega) hsize
  have h2 := takeU8_run fieldsEnd bytes (pre ++ [f.code]) 1 ([f.typeByte, 0] ++ f.content ++ post)
    (by simp [h, Field.payload]) (by simp; omega) hsize
  have h3 := take_run fieldsEnd bytes (pre ++ [f.code, 1]) [f.typeByte] (0 :: f.content ++ post)
    (by simp [h, Field.payload]) (by simp; omega) hsize
  have h4 := takeU8_run fieldsEnd bytes (pre ++ [f.code, 1, f.typeByte]) 0 (f.content ++ post)
    (by simp [h, Field.payload]) (by simp; omega) hsize
  simp only [length_append, length_cons, length_nil, Nat.zero_add, Nat.add_assoc] at h2 h3 h4
  simp [readFieldHead, h1, hcode, h2, h3, h4]

def Span.Holds (bytes : Bytes) (range : Span) (value : Bytes) : Prop :=
  range.start ≤ range.stop ∧ range.stop ≤ bytes.length ∧
    (bytes.drop range.start).take (range.stop - range.start) = value

theorem holds_append (bytes pre v post : Bytes) (h : bytes = pre ++ v ++ post) :
    Span.Holds bytes ⟨pre.length, pre.length + v.length⟩ v := by
  simp [Span.Holds, h]

def Field.ReadAs (bytes : Bytes) : Field → FieldValue → Prop
  | .text _ _ value, .text range => range.Holds bytes value.bytes
  | .number _ value, .number value' => value' = value
  | .signature value, .signature range => range.Holds bytes value.bytes
  | _, _ => False

theorem readAs_value (bytes pre post : Bytes) (h : bytes = pre ++ f.payload ++ post) :
    f.ReadAs bytes (f.value pre.length) := by
  cases f with
  | text code type value =>
    have hv := holds_append bytes (pre ++ [code, 1, type, 0] ++ toLe 4 value.bytes.length) value.bytes (0 :: post)
      (by simp [h, Field.payload, Field.content, Field.code, Field.typeByte])
    simpa [Field.ReadAs, Field.value] using hv
  | number code value => rfl
  | signature value =>
    have hv := holds_append bytes (pre ++ [8, 1, 103, 0, UInt8.ofNat value.bytes.length]) value.bytes (0 :: post)
      (by simp [h, Field.payload, Field.content, Field.code, Field.typeByte])
    simpa [Field.ReadAs, Field.value] using hv

variable {p alignment : Nat}

theorem align_of_dvd (ha : 0 < alignment) (h : p % alignment = 0) : align p alignment = p := by
  obtain ⟨k, rfl⟩ := Nat.dvd_of_mod_eq_zero h
  have hk : (alignment * k + alignment - 1) / alignment = k := by
    rw [Nat.add_sub_assoc ha, Nat.mul_add_div ha, Nat.div_eq_of_lt (by omega), Nat.add_zero]
  rw [align, hk, Nat.mul_comm]

theorem alignFieldPosition_aligned (ha : 0 < alignment) (hsmall : alignment ≤ 8)
    (h : p % alignment = 0) (hb : p ≤ bytes.length) (he : p ≤ fieldsEnd) (hsize : bytes.length + 8 < 2 ^ 64) :
    alignFieldPosition bytes fieldsEnd alignment p = .ok () p := by
  have hal := align_of_dvd ha h
  have hlen : (bytes.take p).length = p := length_take_of_le hb
  have hr := alignFieldPosition_run fieldsEnd bytes (bytes.take p) (bytes.drop p) alignment ha hsmall
    (by simp [hlen, hal]) (by rwa [hlen, hal]) hsize
  rwa [hlen, hal] at hr

theorem readFieldValue_run (hf : f.Valid) (h : bytes = pre ++ f.payload ++ post)
    (hp : pre.length % 8 = 0) (he : pre.length + f.payload.length ≤ fieldsEnd)
    (hsize : bytes.length + 8 < 2 ^ 64) (variantPosition : Nat) (unixFds : List Fd) :
    readFieldValue z bytes fieldsEnd .little variantPosition [f.typeByte] unixFds (pre.length + 4) =
      .ok (f.value pre.length) (pre.length + f.payload.length) := by
  have hlen : bytes.length = pre.length + f.payload.length + post.length := by simp [h, Nat.add_assoc]
  have hplen : f.payload.length = 4 + f.content.length := by
    simp [Field.payload]
    omega
  have hal : alignFieldPosition bytes fieldsEnd 4 (pre.length + 4) = .ok () (pre.length + 4) :=
    alignFieldPosition_aligned fieldsEnd (by decide) (by decide) (by omega) (by omega) (by omega) hsize
  cases f with
  | text code type value =>
    obtain ⟨htype, -, hvl⟩ := hf
    have hc : (Field.text code type value).content.length = value.bytes.length + 5 := by
      simp [Field.content]
      omega
    have hword := takeU32_run fieldsEnd bytes (pre ++ [code, 1, type, 0]) value.bytes.length (value.bytes ++ 0 :: post)
      hvl (by simp [h, Field.payload, Field.content, Field.code, Field.typeByte]) (by simp; omega) (by omega)
    have hstr := takeStringRange_run fieldsEnd bytes (pre ++ [code, 1, type, 0] ++ toLe 4 value.bytes.length) value post
      (by simp [h, Field.payload, Field.content, Field.code, Field.typeByte]) (by simp; omega) (by omega)
    simp only [length_append, length_cons, length_nil, length_toLe, Nat.reduceAdd, Nat.add_assoc] at hword hstr
    have hsig : [type] = ofAscii "s" ∨ [type] = ofAscii "o" := by
      obtain rfl | rfl := htype
      · exact .inl rfl
      · exact .inr rfl
    have hnat : (UInt32.ofNat value.bytes.length).toNat = value.bytes.length := by
      simpa using hvl
    have hend : pre.length + (8 + (value.bytes.length + 1)) =
      pre.length + (Field.text code type value).payload.length := by omega
    rw [hend] at hstr
    simp [readFieldValue, hsig, hal, hword, hnat, hstr, Field.typeByte, Field.value, Nat.add_assoc]
  | number code value =>
    have hc : (Field.number code value).content.length = 4 := by simp [Field.content]
    have hword := takeU32_run fieldsEnd bytes (pre ++ [code, 1, 117, 0]) value.toNat post value.toNat_lt
      (by simp [h, Field.payload, Field.content, Field.code, Field.typeByte]) (by simp; omega) (by omega)
    simp only [length_append, length_cons, length_nil] at hword
    have hsig : ([117] : Bytes) ≠ ofAscii "s" ∧ ([117] : Bytes) ≠ ofAscii "o" ∧ ([117] : Bytes) ≠ ofAscii "g" ∧
      ([117] : Bytes) = ofAscii "u" := by decide
    simp [readFieldValue, hsig.1, hsig.2.1, hsig.2.2.1, ← hsig.2.2.2, hal, hword, hplen, hc, Field.typeByte,
      Field.value]
  | signature value =>
    have hc : (Field.signature value).content.length = value.bytes.length + 2 := by simp [Field.content]
    have hbyte := takeU8_run fieldsEnd bytes (pre ++ [8, 1, 103, 0]) (UInt8.ofNat value.bytes.length)
      (value.bytes ++ 0 :: post)
      (by simp [h, Field.payload, Field.content, Field.code, Field.typeByte]) (by simp; omega) (by omega)
    have hstr := takeStringRange_run fieldsEnd bytes (pre ++ [8, 1, 103, 0, UInt8.ofNat value.bytes.length]) value post
      (by simp [h, Field.payload, Field.content, Field.code, Field.typeByte]) (by simp; omega) (by omega)
    simp only [length_append, length_cons, length_nil, Nat.reduceAdd, Nat.add_assoc] at hbyte hstr
    have hsig : ([103] : Bytes) ≠ ofAscii "s" ∧ ([103] : Bytes) ≠ ofAscii "o" ∧ ([103] : Bytes) = ofAscii "g" := by
      decide
    have hnat : (UInt8.ofNat value.bytes.length).toNat = value.bytes.length := by
      rw [UInt8.toNat_ofNat', Nat.mod_eq_of_lt hf]
    have hend : pre.length + (5 + (value.bytes.length + 1)) =
      pre.length + (Field.signature value).payload.length := by omega
    rw [hend] at hstr
    simp [readFieldValue, hsig.1, hsig.2.1, ← hsig.2.2, hbyte, hnat, hstr, Field.typeByte, Field.value,
      Nat.add_assoc]

/-- Each field starts at the next multiple of eight. -/
def layout : Nat → List Field → Bytes
  | _, [] => []
  | p, f :: fs =>
    List.replicate (align p 8 - p) 0 ++ f.payload ++ layout (align p 8 + f.payload.length) fs

theorem align_mod (p : Nat) : align p 8 % 8 = 0 := by
  unfold align
  omega

theorem testBit_and_shiftLeft (known i : Nat) : known &&& (1 <<< i) = 0 ↔ known.testBit i = false := by
  grind [Nat.one_shiftLeft, Nat.and_two_pow]

variable {known : Nat}

theorem checkKnown_run (hf : f.Valid) (hfree : known.testBit f.code.toNat = false)
    (p : Nat) : checkKnown known f.code [f.typeByte] p = .ok (known ||| (1 <<< f.code.toNat)) p := by
  have hbit := (testBit_and_shiftLeft known f.code.toNat).mpr hfree
  simp [checkKnown, hf.known, hbit]

variable (message : Message)

def Message.field (code : UInt8) : Option FieldValue :=
  match code with
  | 1 => message.path.map .text
  | 2 => message.interface.map .text
  | 3 => message.member.map .text
  | 4 => message.errorName.map .text
  | 5 => message.replySerial.map .number
  | 6 => message.destination.map .text
  | 7 => message.sender.map .text
  | 8 => message.signature.map .signature
  | 9 => message.declaredUnixFds.map .number
  | _ => none

theorem text_codes (code type : UInt8) (h : type = 115 ∨ type = 111) (hk : knownFieldSignature code = some [type]) :
    code = 1 ∨ code = 2 ∨ code = 3 ∨ code = 4 ∨ code = 6 ∨ code = 7 := by
  unfold knownFieldSignature at hk
  grind [ofAscii]

theorem number_codes (code : UInt8) (hk : knownFieldSignature code = some [117]) : code = 5 ∨ code = 9 := by
  unfold knownFieldSignature at hk
  split at hk <;> simp_all [ofAscii]

theorem field_assignField (hf : f.Valid) (message : Message) (start : Nat) (c : UInt8) :
    (assignField message f.code (f.value start)).field c =
      if c = f.code then some (f.value start) else message.field c := by
  cases f with
  | text code type value =>
    obtain rfl | rfl | rfl | rfl | rfl | rfl := text_codes code type hf.1 hf.2.1
    all_goals
      simp only [Field.code, Field.value, assignField, Message.field]
      split <;> simp_all
  | number code value =>
    obtain rfl | rfl := number_codes code hf
    all_goals
      simp only [Field.code, Field.value, assignField, Message.field]
      split <;> simp_all
  | signature value =>
    simp only [Field.code, Field.value, assignField, Message.field]
    split <;> simp_all

def Message.Carries (bytes : Bytes) (fs : List Field) : Prop :=
  ∀ c, match fs.find? (·.code = c) with
    | some f => ∃ v, message.field c = some v ∧ f.ReadAs bytes v
    | none => message.field c = none

variable {fs : List Field}

theorem parseFieldsLoop_field (hf : f.Valid) (h : bytes = pre ++ layout pre.length (f :: fs) ++ post)
    (he : fieldsEnd = pre.length + (layout pre.length (f :: fs)).length) (hsize : bytes.length + 8 < 2 ^ 64) (hfree : known.testBit f.code.toNat = false) (rounds : Nat) (message : Message) :
    parseFieldsLoop z bytes fieldsEnd .little (rounds + 1) known message pre.length =
      parseFieldsLoop z bytes fieldsEnd .little rounds (known ||| (1 <<< f.code.toNat))
        (assignField message f.code (f.value (align pre.length 8))) (align pre.length 8 + f.payload.length) := by
  have hal := align_spec pre.length 8 (by decide)
  have hplen : f.payload.length = 4 + f.content.length := by
    simp [Field.payload]
    omega
  have hend : align pre.length 8 + f.payload.length ≤ fieldsEnd := by
    simp [he, layout]
    omega
  have hpad : bytes = pre ++ replicate (align pre.length 8 - pre.length) 0 ++
      (f.payload ++ layout (align pre.length 8 + f.payload.length) fs ++ post) := by
    simp [h, layout]
  have hstart : (pre ++ replicate (align pre.length 8 - pre.length) (0 : UInt8)).length = align pre.length 8 := by
    simp
    omega
  have hfield : bytes = (pre ++ replicate (align pre.length 8 - pre.length) 0) ++ f.payload ++
      (layout (align pre.length 8 + f.payload.length) fs ++ post) := by
    simp [h, layout]
  have halign := alignFieldPosition_run fieldsEnd bytes pre _ 8 (by decide) (by decide) hpad (by omega) hsize
  have hhead := readFieldHead_run fieldsEnd hf hfield (by omega) (by omega)
  have hvalue := readFieldValue_run (z := z) fieldsEnd hf hfield (by rw [hstart]; exact align_mod _)
    (by omega) hsize (align pre.length 8 + 1) message.unixFds
  rw [hstart] at hhead hvalue
  have hlt : pre.length < fieldsEnd := by omega
  have hne : align pre.length 8 ≠ fieldsEnd := by omega
  simp [parseFieldsLoop, hlt, halign, hne, hhead, checkKnown_run hf hfree, hvalue]

theorem parseFieldsLoop_run (bytes pre post : Bytes) (hfs : ∀ f ∈ fs, f.Valid)
    (hnodup : (fs.map (·.code)).Nodup)
    (h : bytes = pre ++ layout pre.length fs ++ post)
    (he : fieldsEnd = pre.length + (layout pre.length fs).length) (hsize : bytes.length + 8 < 2 ^ 64)
    (known : Nat) (hfree : ∀ f ∈ fs, known.testBit f.code.toNat = false) (rounds : Nat)
    (hrounds : fs.length < rounds) (message : Message) :
    ∃ message', parseFieldsLoop z bytes fieldsEnd .little rounds known message pre.length = .ok message' fieldsEnd ∧
      message.SameFrame message' ∧ ∀ c, match fs.find? (·.code = c) with
        | some f => ∃ v, message'.field c = some v ∧ f.ReadAs bytes v
        | none => message'.field c = message.field c := by
  induction fs generalizing pre known rounds message with
  | nil =>
    obtain ⟨rounds, rfl⟩ := Nat.exists_eq_succ_of_ne_zero (Nat.ne_of_gt hrounds)
    have hstop : fieldsEnd = pre.length := by simpa [layout] using he
    exact ⟨message, by simp [parseFieldsLoop, hstop], Message.SameFrame.refl message, fun c => rfl⟩
  | cons f fs ih =>
    obtain ⟨rounds, rfl⟩ := Nat.exists_eq_succ_of_ne_zero (Nat.ne_of_gt (Nat.zero_lt_of_lt hrounds))
    have hf := hfs f (by simp)
    have hstep := parseFieldsLoop_field (z := z) fieldsEnd hf h he hsize (hfree f (by simp)) rounds message
    have hal := align_spec pre.length 8 (by decide)
    have hlen : (pre ++ replicate (align pre.length 8 - pre.length) 0 ++ f.payload).length =
        align pre.length 8 + f.payload.length := by
      simp
      omega
    rw [map_cons, nodup_cons] at hnodup
    -- the codes that follow differ from the code just marked
    have hfree' : ∀ g ∈ fs, (known ||| (1 <<< f.code.toNat)).testBit g.code.toNat = false := by
      intro g hg
      have hne : f.code.toNat ≠ g.code.toNat := by
        intro heq
        apply hnodup.1
        rw [UInt8.toNat_inj.mp heq]
        exact mem_map_of_mem hg
      simp [Nat.one_shiftLeft, Nat.testBit_two_pow_of_ne hne, hfree g (by simp [hg])]
    obtain ⟨message', hrun, hsame, hcarries⟩ := ih
      (pre ++ replicate (align pre.length 8 - pre.length) 0 ++ f.payload)
      (fun g hg => hfs g (by simp [hg])) hnodup.2
      (by rw [hlen]; simp [h, layout]) (by rw [hlen, he]; simp [layout]; omega) _ hfree'
      rounds (by simpa using hrounds) (assignField message f.code (f.value (align pre.length 8)))
    rw [hlen] at hrun
    refine ⟨message', hstep.trans hrun, (assignField_sameFrame _ _ _).trans hsame, fun c => ?_⟩
    have hc := hcarries c
    by_cases hcode : f.code = c
    · subst hcode
      have hnone : fs.find? (·.code = f.code) = none := by
        simp only [find?_eq_none, decide_eq_true_eq]
        intro g hg heq
        apply hnodup.1
        rw [← heq]
        exact mem_map_of_mem hg
      rw [hnone, field_assignField hf] at hc
      have hread : f.ReadAs bytes (f.value (align pre.length 8)) := by
        have := readAs_value (f := f) bytes (pre ++ replicate (align pre.length 8 - pre.length) 0)
          (layout (align pre.length 8 + f.payload.length) fs ++ post) (by simp [h, layout])
        simpa [Nat.add_sub_cancel' hal.1] using this
      have hfirst : (f :: fs).find? (·.code = f.code) = some f := by simp
      rw [hfirst]
      exact ⟨_, by simpa using hc, hread⟩
    grind [field_assignField]

end Reading

end TensorDE.Dbus
