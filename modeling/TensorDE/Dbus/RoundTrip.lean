import TensorDE.Dbus.Layout

namespace TensorDE.Dbus

open Effect Bytes Codec List

variable {σ : Type} {z : Zvariant} {bytes : Bytes} (p : Nat)

theorem layout_append (fs gs : List Field) :
    layout p (fs ++ gs) = layout p fs ++ layout (p + (layout p fs).length) gs := by
  induction fs generalizing p with
  | nil => simp [layout]
  | cons f fs ih => grind [layout, align]

theorem length_le_layout (fs : List Field) : fs.length ≤ (layout p fs).length := by
  induction fs generalizing p with
  | nil => simp
  | cons f fs ih => grind [layout, Field.payload]

variable {fs : List Field} {f : Field}

theorem payload_le_layout {p : Nat} (h : f ∈ fs) : f.payload.length ≤ (layout p fs).length := by
  induction fs generalizing p with
  | nil => cases h
  | cons g fs ih => grind [layout]

variable (message : Bytes)

theorem alignVec_eq (alignment : Nat) (ha : 0 < alignment) : alignVec message 0 alignment =
      message ++ replicate (align message.length alignment - message.length) 0 := by
  grind [align_spec, alignVec, resize, take_of_length_le]

def Field.Sized : Field → Prop
  | .text _ _ value => value.bytes.length < 2 ^ 32
  | .number _ _ => True
  | .signature value => value.bytes.length < 256

def pushField (message : Bytes) : Field → Except Error Bytes
  | .text code type value => pushStringFieldAt message 0 code type value.bytes
  | .number code value => .ok (pushU32FieldAt message 0 code value)
  | .signature value => pushSignatureFieldAt message 0 value.bytes

theorem alignVec_head (code type : UInt8) : alignVec (alignVec message 0 8 ++ [code] ++ [1, type, 0]) 0 4 =
      message ++ replicate (align message.length 8 - message.length) 0 ++ [code, 1, type, 0] := by
  have hal := (align_spec message.length 8 (by decide)).1
  have hmod := align_mod message.length
  have hlen : (alignVec message 0 8 ++ [code] ++ [1, type, 0]).length = align message.length 8 + 4 := by
    simp [alignVec_eq message 8 (by decide)]
    omega
  rw [alignVec_eq _ 4 (by decide), hlen, align_of_dvd (by decide) (by omega)]
  simp [alignVec_eq message 8 (by decide)]

variable {message : Bytes} {message' : Bytes}

theorem pushField_eq (h : pushField message f = .ok message') :
    message' = message ++ layout message.length [f] ∧ f.Sized := by
  cases f with
  | text code type value =>
    simp only [pushField, pushStringFieldAt, alignVec_head] at h
    split at h
    · cases h
    split at h
    · rename_i hlen
      cases h
      exact ⟨by simp [layout, Field.payload, Field.code, Field.typeByte, Field.content], hlen⟩
    · cases h
  | number code value =>
    simp only [pushField, pushU32FieldAt, alignVec_head] at h
    cases h
    exact ⟨by simp [layout, Field.payload, Field.code, Field.typeByte, Field.content], trivial⟩
  | signature value =>
    simp only [pushField, pushSignatureFieldAt] at h
    split at h
    · rename_i hlen
      exact ⟨by grind [layout, Field.payload, Field.code, Field.typeByte, Field.content, alignVec_eq], hlen⟩
    · cases h

theorem pushField_ok (hf : f.Sized) (hsize : message.length + (layout message.length [f]).length + 7 ≤ maxMessageSize) :
    pushField message f = .ok (message ++ layout message.length [f]) := by
  cases f with
  | text code type value =>
    have hf : value.bytes.length < 2 ^ 32 := hf
    have hlen : (layout message.length [Field.text code type value]).length =
        align message.length 8 - message.length + (value.bytes.length + 9) := by
      simp [layout, Field.payload, Field.content]
      omega
    grind [pushField, pushStringFieldAt, alignVec_head, layout, Field.payload, Field.code, Field.typeByte, Field.content]
  | number code value =>
    simp only [pushField, pushU32FieldAt, alignVec_head]
    simp [layout, Field.payload, Field.code, Field.typeByte, Field.content]
  | signature value =>
    have hf : value.bytes.length < 256 := hf
    simp [pushField, pushSignatureFieldAt, hf, layout, Field.payload, Field.code, Field.typeByte, Field.content,
      alignVec_eq message 8 (by decide)]

theorem foldlM_pushField_eq (h : fs.foldlM pushField message = .ok message') :
    message' = message ++ layout message.length fs ∧ ∀ f ∈ fs, f.Sized := by
  induction fs generalizing message with
  | nil =>
    cases h
    simp [layout]
  | cons f fs ih =>
    rw [foldlM_cons, except_bind_eq_ok] at h
    obtain ⟨next, hpush, hrest⟩ := h
    obtain ⟨rfl, hf⟩ := pushField_eq hpush
    have happ := layout_append message.length [f] fs
    grind

theorem foldlM_pushField_ok (message : Bytes) (hfs : ∀ f ∈ fs, f.Sized)
    (hsize : message.length + (layout message.length fs).length + 7 ≤ maxMessageSize) :
    fs.foldlM pushField message = .ok (message ++ layout message.length fs) := by
  induction fs generalizing message with
  | nil => simp [layout, pure, Except.pure]
  | cons f fs ih =>
    have happ := layout_append message.length [f] fs
    rw [singleton_append] at happ
    rw [happ, length_append] at hsize
    have hnext := ih (message ++ layout message.length [f]) (fun g hg => hfs g (by simp [hg]))
      (by rw [length_append]; omega)
    grind [pushField_ok, except_bind_eq_ok]

def textField (code type : UInt8) (value : Option Text) : List Field := (value.map (Field.text code type)).toList

/-- The header fields of a message in the order of their codes. -/
def Outgoing.fields (outgoing : Outgoing) (signature : Text) (unixFdCount : Nat) : List Field :=
  textField 1 111 outgoing.path ++ textField 2 115 outgoing.interface ++ textField 3 115 outgoing.member ++
    textField 4 115 outgoing.errorName ++ (outgoing.replySerial.map (Field.number 5)).toList ++
    textField 6 115 outgoing.destination ++ (if signature.bytes = [] then [] else [Field.signature signature]) ++
    (if unixFdCount = 0 then [] else [Field.number 9 (UInt32.ofNat unixFdCount)])

theorem pushText_eq (message : Bytes) (code type : UInt8) (value : Option Text) :
    pushText message code type value = (textField code type value).foldlM pushField message := by
  cases value with
  | none => rfl
  | some value => simp [pushText, textField, pushField]

variable (outgoing : Outgoing) (signature : Text)

theorem encodeFields_eq : encodeFields outgoing signature.bytes =
      (outgoing.fields signature 0).foldlM pushField (replicate fixedHeaderLen 0) := by
  have hsignature : ∀ message : Bytes,
      (if signature.bytes = [] then [] else [Field.signature signature]).foldlM pushField message =
        if signature.bytes = [] then .ok message else pushSignatureFieldAt message 0 signature.bytes := by
    intro message
    by_cases h : signature.bytes = []
    · rw [if_pos h, if_pos h]
      rfl
    · rw [if_neg h, if_neg h]
      simp [pushField]
  simp only [Outgoing.fields, foldlM_append, if_true, append_nil, ← pushText_eq, hsignature,
    encodeFields, bind_assoc]
  cases outgoing.replySerial <;> rfl

def frameOf (kind : MessageKind) (flags : UInt8) (serial : UInt32) (fs : List Field) (content : Bytes) : Bytes :=
  ([108, kind.toByte, flags, 1] ++ toLe 4 content.length ++ toLe 4 serial.toNat ++
    toLe 4 (layout fixedHeaderLen fs).length) ++ layout fixedHeaderLen fs ++
    (List.replicate (align (fixedHeaderLen + (layout fixedHeaderLen fs).length) 8 -
      (fixedHeaderLen + (layout fixedHeaderLen fs).length)) 0 ++ content)

variable (kind : MessageKind) (flags : UInt8)

theorem length_frameOf (serial : UInt32) (fs : List Field) (content : Bytes) :
    (frameOf kind flags serial fs content).length =
      align (fixedHeaderLen + (layout fixedHeaderLen fs).length) 8 + content.length := by
  have h16 : fixedHeaderLen = 16 := rfl
  have hal := (align_spec (fixedHeaderLen + (layout fixedHeaderLen fs).length) 8 (by decide)).1
  simp [frameOf]
  omega

def frameMessage (kind : MessageKind) (flags : UInt8) (serial : UInt32) (fs : List Field) (content : Bytes)
    (fds : List Fd) : Message :=
  blankMessage kind flags serial .little (frameOf kind flags serial fs content) fds
    (align (fixedHeaderLen + (layout fixedHeaderLen fs).length) 8)
    (align (fixedHeaderLen + (layout fixedHeaderLen fs).length) 8 + content.length)

/-- The value library writes `content` and hands over `fds`, at every position
that is a multiple of the largest alignment; only the empty signature has the
empty content. -/
structure Body.Writes (z : Zvariant) (body : Body) (content : Bytes) (fds : List Fd) : Prop where
  size : ∀ p, p % 8 = 0 → body.serializedSize p = some (content.length, fds.length)
  write : ∀ p, p % 8 = 0 → body.toWriter p = some (content, fds)
  signature : z.signature body.signature.bytes = true
  empty : content = [] ↔ body.signature.bytes = []

theorem fields_count (count : Nat) : outgoing.fields signature count = outgoing.fields signature 0 ++
      if count = 0 then [] else [Field.number 9 (UInt32.ofNat count)] := by
  simp [Outgoing.fields]

theorem pushCount_eq (message : Bytes) (count : Nat) :
    (if count = 0 then message else pushU32FieldAt message 0 9 (UInt32.ofNat count)) =
      message ++ layout message.length (if count = 0 then [] else [Field.number 9 (UInt32.ofNat count)]) := by
  by_cases h : count = 0
  · simp [h, layout]
  · rw [if_neg h, if_neg h]
    exact (pushField_eq (f := Field.number 9 (UInt32.ofNat count)) rfl).1

variable {outgoing : Outgoing}

theorem encodeOutgoing_eq {body : Body} {content : Bytes} {fds : List Fd}
    (hbody : body.Writes z content fds)
    (hfields : encodeFields outgoing body.signature.bytes = .ok (replicate fixedHeaderLen 0 ++
      layout fixedHeaderLen (outgoing.fields body.signature 0))) :
    encodeOutgoing outgoing body =
      if fds.length > maxUnixFds then .error (.unixFdLimit fds.length maxUnixFds)
      else
        let frame := frameOf outgoing.kind outgoing.flags outgoing.serial
          (outgoing.fields body.signature fds.length) content
        if frame.length > maxMessageSize then .error tooLarge else .ok ⟨frame, fds⟩ := by
  have h16 : fixedHeaderLen = 16 := rfl
  have hlayout := layout_append fixedHeaderLen (outgoing.fields body.signature 0)
    (if fds.length = 0 then [] else [Field.number 9 (UInt32.ofNat fds.length)])
  rw [← fields_count] at hlayout
  have hmessage := pushCount_eq (replicate fixedHeaderLen 0 ++
    layout fixedHeaderLen (outgoing.fields body.signature 0)) fds.length
  rw [length_append, length_replicate, append_assoc, ← hlayout] at hmessage
  generalize hfs : outgoing.fields body.signature fds.length = fs at hmessage ⊢
  have hal := align_spec (fixedHeaderLen + (layout fixedHeaderLen fs).length) 8 (by decide)
  have hsize := hbody.size (align (fixedHeaderLen + (layout fixedHeaderLen fs).length) 8) (align_mod _)
  have hwrite := hbody.write (align (fixedHeaderLen + (layout fixedHeaderLen fs).length) 8) (align_mod _)
  have hlen := length_frameOf outgoing.kind outgoing.flags outgoing.serial fs content
  have hdrop : (replicate fixedHeaderLen 0 ++ layout fixedHeaderLen fs).drop fixedHeaderLen =
    layout fixedHeaderLen fs := by simp
  have hlength : (replicate fixedHeaderLen (0 : UInt8) ++ layout fixedHeaderLen fs).length =
    fixedHeaderLen + (layout fixedHeaderLen fs).length := by simp
  have hframe : resize ([108, outgoing.kind.toByte, outgoing.flags, 1] ++ toLe 4 content.length ++
      toLe 4 outgoing.serial.toNat ++ toLe 4 (layout fixedHeaderLen fs).length ++ layout fixedHeaderLen fs)
      (align (fixedHeaderLen + (layout fixedHeaderLen fs).length) 8) ++ content =
      frameOf outgoing.kind outgoing.flags outgoing.serial fs content := by
    rw [resize, take_of_length_le (by simp; omega)]
    simp [frameOf]
    omega
  simp only [encodeOutgoing, hfields, hbody.size 0 rfl, Option.elim_some, except_ok_bind, hmessage, hlength, hsize,
    hwrite]
  by_cases hcount : fds.length > maxUnixFds
  · rw [if_pos hcount, if_pos hcount]
  by_cases hmax : (frameOf outgoing.kind outgoing.flags outgoing.serial fs content).length > maxMessageSize
  · rw [if_pos hmax]
    by_cases hfit : align (fixedHeaderLen + (layout fixedHeaderLen fs).length) 8 + content.length < 2 ^ 64
    · grind [checkedAdd_eq, except_ok_bind]
    · rw [checkedAdd, if_neg hfit]
      rfl
  grind [maxMessageSize, checkedAdd_eq, except_ok_bind]

variable {signature : Text}

theorem sized_of_encodeFields (h : encodeFields outgoing signature.bytes = .ok message) :
    message = replicate fixedHeaderLen 0 ++ layout fixedHeaderLen (outgoing.fields signature 0) ∧
      ∀ f ∈ outgoing.fields signature 0, f.Sized := by
  rw [encodeFields_eq] at h
  simpa using foldlM_pushField_eq h

theorem valid_fields (h : ∀ f ∈ outgoing.fields signature 0, f.Sized)
    (count : Nat) : ∀ f ∈ outgoing.fields signature count, f.Valid := by
  intro f hf
  rw [fields_count, mem_append] at hf
  obtain hf | hf := hf
  · have hs := h f hf
    simp only [Outgoing.fields, textField, mem_append, Option.mem_toList, Option.map_eq_some_iff] at hf
    obtain ((((((⟨v, -, rfl⟩ | ⟨v, -, rfl⟩) | ⟨v, -, rfl⟩) | ⟨v, -, rfl⟩) | ⟨v, -, rfl⟩) | ⟨v, -, rfl⟩) | hf) | hf := hf
    all_goals first | exact ⟨by decide, rfl, hs⟩ | exact rfl | skip
    · by_cases hempty : signature.bytes = []
      · simp [hempty] at hf
      · simp only [hempty, if_false, mem_singleton] at hf
        subst hf
        exact hs
    · simp at hf
  · by_cases hzero : count = 0
    · simp [hzero] at hf
    · simp only [hzero, if_false, mem_singleton] at hf
      subst hf
      exact rfl

theorem nodup_fields (outgoing : Outgoing) (signature : Text) (count : Nat) :
    ((outgoing.fields signature count).map (·.code)).Nodup := by
  have htext : ∀ code type value, ((textField code type value).map (·.code)).Sublist [code] := by
    intro code type value
    cases value <;> simp [textField, Field.code]
  have hnumber : ((outgoing.replySerial.map (Field.number 5)).toList.map (·.code)).Sublist [5] := by
    cases outgoing.replySerial <;> simp [Field.code]
  have hsignature : ((if signature.bytes = [] then [] else [Field.signature signature]).map (·.code)).Sublist [8] := by
    by_cases h : signature.bytes = [] <;> simp [h, Field.code]
  have hcount : ((if count = 0 then [] else [Field.number 9 (UInt32.ofNat count)]).map (·.code)).Sublist [9] := by
    by_cases h : count = 0 <;> simp [h, Field.code]
  have hsub : ((outgoing.fields signature count).map (·.code)).Sublist
      ([1] ++ [2] ++ [3] ++ [4] ++ [5] ++ [6] ++ [8] ++ [9]) := by
    simp only [Outgoing.fields, map_append]
    exact (((((((htext _ _ _).append (htext _ _ _)).append (htext _ _ _)).append (htext _ _ _)).append
      hnumber).append (htext _ _ _)).append hsignature).append hcount
  exact hsub.nodup (by decide)

theorem ofByte_toByte (s : σ) : MessageKind.ofByte kind.toByte s = .ok kind s := by
  cases kind <;> rfl

theorem wordAt_append (pre post : Bytes) {n : Nat} (hn : n < 2 ^ 32) (h : bytes = pre ++ toLe 4 n ++ post) :
    (wordAt bytes .little pre.length).toNat = n := by
  grind [length_toLe, wordAt, ofLe_toLe, UInt32.toNat_ofNat']

/-- A frame with distinct valid fields is decoded when the message read from it passes the validators. -/
theorem decode_frameOf {serial : UInt32} (content : Bytes)
    (fds : List Fd) (hserial : serial ≠ 0) (hfs : ∀ f ∈ fs, f.Valid) (hnodup : (fs.map (·.code)).Nodup)
    (hmax : (frameOf kind flags serial fs content).length ≤ maxMessageSize)
    (hvalid : ∀ message (p : Nat), (frameMessage kind flags serial fs content fds).SameFrame message →
      message.Carries (frameOf kind flags serial fs content) fs → validateMessage z message p = .ok () p) :
    ∃ message, decode z (frameOf kind flags serial fs content) fds = .ok message ∧
      (frameMessage kind flags serial fs content fds).SameFrame message ∧
      message.Carries (frameOf kind flags serial fs content) fs := by
  have h16 : fixedHeaderLen = 16 := rfl
  have hlen := length_frameOf kind flags serial fs content
  have hal := align_spec (fixedHeaderLen + (layout fixedHeaderLen fs).length) 8 (by decide)
  have hL : (layout fixedHeaderLen fs).length < 2 ^ 32 := by
    unfold maxMessageSize at hmax
    omega
  have hC : content.length < 2 ^ 32 := by
    unfold maxMessageSize at hmax
    omega
  generalize hpre : [108, kind.toByte, flags, 1] ++ toLe 4 content.length ++ toLe 4 serial.toNat ++
    toLe 4 (layout fixedHeaderLen fs).length = fixed
  have hfixed : fixed.length = fixedHeaderLen := by simp [← hpre, h16]
  have hsplit : frameOf kind flags serial fs content = fixed ++ layout fixedHeaderLen fs ++
    (replicate (align (fixedHeaderLen + (layout fixedHeaderLen fs).length) 8 -
      (fixedHeaderLen + (layout fixedHeaderLen fs).length)) 0 ++ content) := by rw [← hpre]; rfl
  unfold frameMessage at hvalid ⊢
  generalize frameOf kind flags serial fs content = bytes at *
  have htake : bytes.take fixedHeaderLen = fixed := by
    rw [hsplit, append_assoc, ← hfixed, take_left]
  have hw4 : (wordAt fixed .little 4).toNat = content.length :=
    wordAt_append [108, kind.toByte, flags, 1]
      (toLe 4 serial.toNat ++ toLe 4 (layout fixedHeaderLen fs).length) hC (by simp [← hpre])
  have hw8 : (wordAt fixed .little 8).toNat = serial.toNat :=
    wordAt_append ([108, kind.toByte, flags, 1] ++ toLe 4 content.length)
      (toLe 4 (layout fixedHeaderLen fs).length) serial.toNat_lt (by simp [← hpre])
  have hw12 : (wordAt fixed .little 12).toNat = (layout fixedHeaderLen fs).length :=
    wordAt_append ([108, kind.toByte, flags, 1] ++ toLe 4 content.length ++ toLe 4 serial.toNat) [] hL
      (by simp [← hpre])
  have hserial' : wordAt fixed .little 8 = serial := UInt32.toNat_inj.mp hw8
  have htotal : headerTotal fixed .little = bytes.length := by rw [headerTotal, hw12, hw4, hlen]
  have h0 : fixed[0]? = some 108 := by simp [← hpre]
  have h1 : fixed[1]? = some kind.toByte := by simp [← hpre]
  have h2 : fixed[2]? = some flags := by simp [← hpre]
  have h3 : fixed[3]? = some 1 := by simp [← hpre]
  have hframeLen := frameLen_run (s := 0) hfixed h0 rfl h3 h1 (ofByte_toByte kind 0)
  rw [htotal, if_neg (by omega)] at hframeLen
  have hshort : ¬ bytes.length < fixedHeaderLen := by omega
  have hslice : ∀ start, start + 4 ≤ fixedHeaderLen →
      (slice fixed start (start + 4) : Op Nat Error Bytes) 0 = .ok ((fixed.drop start).take 4) 0 :=
    fun start h => slice_run fixed start 4 (by omega) 0
  have hread : ∀ start, start + 4 ≤ fixedHeaderLen →
      readU32 ((fixed.drop start).take 4) .little 0 = .ok (wordAt fixed .little start) 0 :=
    fun start h => readU32_run fixed .little start (by omega) 0
  have hs4 := hslice 4 (by decide)
  have hs8 := hslice 8 (by decide)
  have hs12 := hslice 12 (by decide)
  -- the field loop, then the validators
  have hrounds := length_le_layout fixedHeaderLen fs
  obtain ⟨message, hloop, hsame, hcarries⟩ := parseFieldsLoop_run (z := z) _ bytes fixed _ hfs hnodup
    (by rw [hfixed]; exact hsplit) rfl (by omega) 0
    (by simp) (fixedHeaderLen + (layout fixedHeaderLen fs).length + 1) (by omega)
    (blankMessage kind flags serial .little bytes fds
      (align (fixedHeaderLen + (layout fixedHeaderLen fs).length) 8)
      (align (fixedHeaderLen + (layout fixedHeaderLen fs).length) 8 + content.length))
  rw [hfixed] at hloop
  have hcarry : message.Carries bytes fs := by
    intro c
    have hc := hcarries c
    cases hfind : fs.find? (·.code = c) with
    | some f => simpa only [hfind] using hc
    | none =>
      simp only [hfind] at hc ⊢
      rw [hc]
      unfold Message.field
      split <;> rfl
  have hpadding : (slice bytes (fixedHeaderLen + (layout fixedHeaderLen fs).length)
      (align (fixedHeaderLen + (layout fixedHeaderLen fs).length) 8) : Op Nat Error Bytes)
      (fixedHeaderLen + (layout fixedHeaderLen fs).length) = .ok (replicate
        (align (fixedHeaderLen + (layout fixedHeaderLen fs).length) 8 -
          (fixedHeaderLen + (layout fixedHeaderLen fs).length)) 0)
      (fixedHeaderLen + (layout fixedHeaderLen fs).length) := by
    have hstart : (fixed ++ layout fixedHeaderLen fs).length = fixedHeaderLen + (layout fixedHeaderLen fs).length := by
      rw [length_append, hfixed]
    rw [slice, if_pos ⟨hal.1, by omega⟩, hsplit, ← hstart, drop_left]
    simp
  have hrest := hvalid message (fixedHeaderLen + (layout fixedHeaderLen fs).length) hsame hcarry
  have hfieldsRun : decodeFields z bytes fds kind flags serial .little (wordAt fixed .little 12)
      (wordAt fixed .little 4) 0 = .ok message (fixedHeaderLen + (layout fixedHeaderLen fs).length) := by
    simp [decodeFields, parseFields, hw12, hw4,
      addUsize_run (a := fixedHeaderLen) (b := (layout fixedHeaderLen fs).length) (by omega),
      alignUsize_run (fixedHeaderLen + (layout fixedHeaderLen fs).length) 8 (by omega),
      addUsize_run (a := align (fixedHeaderLen + (layout fixedHeaderLen fs).length) 8) (b := content.length)
        (by omega), hloop, hpadding, validateZeroPadding, hrest]
  have hrun : decodeMessage z bytes fds 0 = .ok message (fixedHeaderLen + (layout fixedHeaderLen fs).length) := by
    simp [decodeMessage, hshort, htake, hframeLen, byteAt, h0, h1, h2, parseEndian_run, endianOf, ofByte_toByte,
      hs4, hs8, hs12, hread 4 (by decide), hread 8 (by decide), hread 12 (by decide), hserial', hserial, hfieldsRun]
  exact ⟨message, by simp [decode, hrun], hsame, hcarry⟩

/-- The fields a kind of message requires, and those it must not have. -/
def Outgoing.Shaped (outgoing : Outgoing) : Prop :=
  match outgoing.kind with
  | .methodCall => outgoing.path.isSome ∧ outgoing.member.isSome ∧ outgoing.replySerial = none ∧
      outgoing.errorName = none
  | .methodReturn => outgoing.replySerial.isSome ∧ outgoing.path = none ∧ outgoing.interface = none ∧
      outgoing.member = none ∧ outgoing.errorName = none
  | .error => outgoing.replySerial.isSome ∧ outgoing.errorName.isSome ∧ outgoing.path = none ∧
      outgoing.interface = none ∧ outgoing.member = none
  | .signal => outgoing.path.isSome ∧ outgoing.interface.isSome ∧ outgoing.member.isSome ∧
      outgoing.replySerial = none ∧ outgoing.errorName = none

structure Outgoing.Valid (z : Zvariant) (outgoing : Outgoing) : Prop where
  serial : outgoing.serial ≠ 0
  shaped : outgoing.Shaped
  replySerial : outgoing.replySerial ≠ some 0
  path : ∀ v ∈ outgoing.path, z.objectPath v.bytes = true
  interface : ∀ v ∈ outgoing.interface, isInterfaceName v.bytes = true
  member : ∀ v ∈ outgoing.member, isMemberName v.bytes = true
  errorName : ∀ v ∈ outgoing.errorName, isInterfaceName v.bytes = true
  destination : ∀ v ∈ outgoing.destination, (isUniqueName v.bytes || isWellKnownName v.bytes) = true

/-- A decoded message says what was sent. -/
structure Recovers (outgoing : Outgoing) (signature : Text) (content : Bytes) (fds : List Fd)
    (message : Message) : Prop where
  kind : message.kind = outgoing.kind
  flags : message.flags = outgoing.flags
  serial : message.serial = outgoing.serial
  replySerial : message.replySerial = outgoing.replySerial
  path : message.header message.path () = .ok (outgoing.path.map (·.bytes)) ()
  interface : message.header message.interface () = .ok (outgoing.interface.map (·.bytes)) ()
  member : message.header message.member () = .ok (outgoing.member.map (·.bytes)) ()
  errorName : message.header message.errorName () = .ok (outgoing.errorName.map (·.bytes)) ()
  destination : message.header message.destination () = .ok (outgoing.destination.map (·.bytes)) ()
  sender : message.sender = none
  signature : message.header message.signature () =
    .ok (if signature.bytes = [] then none else some signature.bytes) ()
  declaredUnixFds : message.declaredUnixFds = if fds.length = 0 then none else some (UInt32.ofNat fds.length)
  unixFds : message.unixFds = fds
  body : message.bodyBytes () = .ok content ()

section Carried

variable {outgoing : Outgoing} {signature : Text} {count : Nat} {message : Message}

theorem find?_textField (code type c : UInt8) (value : Option Text) :
    (textField code type value).find? (·.code = c) = if code = c then value.map (Field.text code type) else none := by
  cases value with
  | none => simp [textField]
  | some value => grind [textField, Field.code]

theorem find?_number (code c : UInt8) (value : Option UInt32) :
    (value.map (Field.number code)).toList.find? (·.code = c) =
      if code = c then value.map (Field.number code) else none := by
  cases value with
  | none => simp
  | some value => by_cases h : code = c <;> simp [Field.code, h]

theorem find?_if (p : Prop) [Decidable p] (f : Field) (c : UInt8) :
    (if p then [] else [f]).find? (·.code = c) = if f.code = c ∧ ¬ p then some f else none := by
  grind

theorem find?_fields (outgoing : Outgoing) (signature : Text) (count : Nat) :
    let find c := (outgoing.fields signature count).find? (·.code = c)
    find 1 = outgoing.path.map (Field.text 1 111) ∧ find 2 = outgoing.interface.map (Field.text 2 115) ∧
      find 3 = outgoing.member.map (Field.text 3 115) ∧ find 4 = outgoing.errorName.map (Field.text 4 115) ∧
      find 5 = outgoing.replySerial.map (Field.number 5) ∧ find 6 = outgoing.destination.map (Field.text 6 115) ∧
      find 7 = none ∧ find 8 = (if signature.bytes = [] then none else some signature).map Field.signature ∧
      find 9 = (if count = 0 then none else some (UInt32.ofNat count)).map (Field.number 9) := by
  have h8 : (Field.signature signature).code = 8 := rfl
  have h9 : (Field.number 9 (UInt32.ofNat count)).code = 9 := rfl
  intro find
  simp only [find, Outgoing.fields, find?_append, find?_textField, find?_number, find?_if, h8, h9]
  grind

/-- A text that may be absent, behind a range that may be absent. -/
def HoldsText (bytes : Bytes) : Option Span → Option Text → Prop
  | some range, some value => range.Holds bytes value.bytes
  | none, none => True
  | _, _ => False

variable {fs : List Field} {c : UInt8} {range : Option Span} {value : Option Text}

theorem Message.Carries.text (type : UInt8) (h : message.Carries bytes fs)
    (hfind : fs.find? (·.code = c) = value.map (Field.text c type)) (hfield : message.field c = range.map .text) :
    HoldsText bytes range value := by
  have hc := h c
  cases range <;> cases value <;> simp_all [HoldsText, Field.ReadAs]

theorem Message.Carries.bodySignature (h : message.Carries bytes fs)
    (hfind : fs.find? (·.code = c) = value.map Field.signature)
    (hfield : message.field c = range.map .signature) : HoldsText bytes range value := by
  have hc := h c
  cases range <;> cases value <;> simp_all [HoldsText, Field.ReadAs]

theorem Message.Carries.number {value number : Option UInt32} (h : message.Carries bytes fs)
    (hfind : fs.find? (·.code = c) = value.map (Field.number c)) (hfield : message.field c = number.map .number) :
    number = value := by
  have hc := h c
  cases number <;> cases value <;> simp_all [Field.ReadAs]

theorem HoldsText.isSome (h : HoldsText bytes range value) : range.isSome = value.isSome := by
  cases range <;> cases value <;> simp_all [HoldsText]

theorem HoldsText.isNone (h : HoldsText bytes range value) : range.isNone = value.isNone := by
  cases range <;> cases value <;> simp_all [HoldsText]

theorem header_run (hframe : message.frame = bytes) (h : HoldsText bytes range value) (s : σ) :
    message.header range s = .ok (value.map (·.bytes)) s := by
  cases range with
  | none =>
    cases value with
    | none => rfl
    | some value => exact h.elim
  | some range =>
    cases value with
    | none => exact h.elim
    | some value =>
      obtain ⟨horder, hstop, hv⟩ := h
      simp [Message.header, slice, hframe, horder, hstop, hv, value.valid]

theorem validateValue_run (valid : Bytes → Bool) (hframe : message.frame = bytes) (h : HoldsText bytes range value)
    (hvalid : ∀ v ∈ value, valid v.bytes = true) (text : String) (s : σ) :
    validateValue message range valid text s = .ok () s := by
  cases value with
  | none => simp [validateValue, header_run hframe h]
  | some value => simp [validateValue, header_run hframe h, hvalid value rfl]

/-- The header of a message agrees with what was sent, field by field. -/
structure Carried (outgoing : Outgoing) (signature : Text) (count : Nat) (message : Message) : Prop where
  path : HoldsText message.frame message.path outgoing.path
  interface : HoldsText message.frame message.interface outgoing.interface
  member : HoldsText message.frame message.member outgoing.member
  errorName : HoldsText message.frame message.errorName outgoing.errorName
  replySerial : message.replySerial = outgoing.replySerial
  destination : HoldsText message.frame message.destination outgoing.destination
  sender : HoldsText message.frame message.sender none
  signature : HoldsText message.frame message.signature (if signature.bytes = [] then none else some signature)
  declaredUnixFds : message.declaredUnixFds = if count = 0 then none else some (UInt32.ofNat count)

theorem Message.Carries.carried (h : message.Carries message.frame (outgoing.fields signature count)) :
    Carried outgoing signature count message := by
  obtain ⟨h1, h2, h3, h4, h5, h6, h7, h8, h9⟩ := find?_fields outgoing signature count
  exact ⟨h.text 111 h1 rfl, h.text 115 h2 rfl, h.text 115 h3 rfl, h.text 115 h4 rfl, h.number h5 rfl, h.text 115 h6 rfl,
    h.text 115 h7 rfl, h.bodySignature h8 rfl, h.number h9 rfl⟩

theorem getD_count (h : count ≤ maxUnixFds) :
    (((if count = 0 then none else some (UInt32.ofNat count)) : Option UInt32).map (·.toNat)).getD 0 = count := by
  unfold maxUnixFds at h
  by_cases hzero : count = 0
  · simp [hzero]
  · have hlt : count < 2 ^ 32 := by omega
    simpa [hzero] using hlt

theorem missingField_eq (hc : Carried outgoing signature count message) (hkind : message.kind = outgoing.kind)
    (hshaped : outgoing.Shaped) : missingField message = none := by
  have hsome : ∀ {α : Type} {o : Option α}, o.isSome = true → o.isNone = false := by
    intro α o h
    cases o with
    | none => cases h
    | some a => rfl
  grind -linarith [Outgoing.Shaped, missingField, hc.path.isNone, hc.interface.isNone, hc.member.isNone, hc.errorName.isNone,
      hc.replySerial]

theorem forbiddenField_eq (hc : Carried outgoing signature count message) (hkind : message.kind = outgoing.kind)
    (hshaped : outgoing.Shaped) : forbiddenField message = none := by
  grind [hc.path.isSome, hc.interface.isSome, hc.member.isSome, hc.errorName.isSome, hc.replySerial, Outgoing.Shaped,
      forbiddenField]

theorem validateMessage_run {content : Bytes} (ho : outgoing.Valid z) (hc : Carried outgoing signature count message)
    (hkind : message.kind = outgoing.kind) (hcount : count ≤ maxUnixFds) (hfds : message.unixFds.length = count)
    (hsig : z.signature signature.bytes = true) (hempty : content = [] ↔ signature.bytes = [])
    (hbody : ∀ s : σ, message.bodyBytes s = .ok content s) (s : σ) : validateMessage z message s = .ok () s := by
  have hdeclared := getD_count hcount
  rw [← hc.declaredUnixFds] at hdeclared
  have h1 : validateUnixFds message s = .ok () s := by
    simp [validateUnixFds, hdeclared, hfds, Nat.not_lt.mpr hcount]
  have h2 : validateRequiredFields message s = .ok () s := by
    simp [validateRequiredFields, missingField_eq hc hkind ho.shaped]
  have h3 : validateFieldSemantics message s = .ok () s := by
    simp [validateFieldSemantics, forbiddenField_eq hc hkind ho.shaped]
  have h4 : validateFieldValues z message s = .ok () s := by
    simp [validateFieldValues, validateValue_run _ rfl hc.path ho.path, validateValue_run _ rfl hc.interface ho.interface,
      validateValue_run _ rfl hc.member ho.member, validateValue_run _ rfl hc.errorName ho.errorName,
      validateValue_run (fun name => isUniqueName name || isWellKnownName name) rfl hc.destination ho.destination,
      validateValue_run _ rfl hc.sender (by simp),
      hc.replySerial, ho.replySerial]
  have h5 : validateBodySignature z message s = .ok () s := by
    by_cases h : signature.bytes = []
    · rw [h] at hsig
      simp [validateBodySignature, header_run rfl hc.signature, h, hsig, hbody, hempty.mpr h]
    · have hsome : signature.bytes.isEmpty = false := by simpa using h
      have hne := mt hempty.mp h
      simp [validateBodySignature, header_run rfl hc.signature, h, hsig, hbody, hne, hsome]
  simp [validateMessage, h1, h2, h3, h4, h5]

end Carried

def Outgoing.wireSize (outgoing : Outgoing) (signature : Text) (content : Bytes) (fds : List Fd) : Nat :=
  align (fixedHeaderLen + (layout fixedHeaderLen (outgoing.fields signature fds.length)).length) 8 + content.length

section Assembly

variable {outgoing : Outgoing} {body : Body} {content : Bytes} {fds : List Fd}

variable {kind : MessageKind} {flags : UInt8} {serial : UInt32} {fs : List Field} {message : Message}

theorem bodyBytes_run (h : (frameMessage kind flags serial fs content fds).SameFrame message) (s : σ) :
    message.bodyBytes s = .ok content s := by
  obtain ⟨-, -, -, hframe, hrange, -⟩ := h
  have hlen := length_frameOf kind flags serial fs content
  have hdrop : (frameOf kind flags serial fs content).drop
      (align (fixedHeaderLen + (layout fixedHeaderLen fs).length) 8) = content := by
    have hpre : (frameOf kind flags serial fs content).length - content.length =
      align (fixedHeaderLen + (layout fixedHeaderLen fs).length) 8 := by omega
    rw [← hpre, frameOf, ← append_assoc, length_append, Nat.add_sub_cancel, drop_left]
  rw [Message.bodyBytes, hframe, hrange]
  change slice (frameOf kind flags serial fs content) (align (fixedHeaderLen + (layout fixedHeaderLen fs).length) 8)
    (align (fixedHeaderLen + (layout fixedHeaderLen fs).length) 8 + content.length) s = _
  rw [slice_run _ _ _ (by omega), hdrop, take_length]

theorem carried_of_sameFrame {signature : Text} {count : Nat}
    (h : (frameMessage kind flags serial fs content fds).SameFrame message)
    (hcarries : message.Carries (frameOf kind flags serial fs content) (outgoing.fields signature count)) :
    Carried outgoing signature count message := by
  have hframe : message.frame = frameOf kind flags serial fs content := h.2.2.2.1
  rw [← hframe] at hcarries
  exact hcarries.carried

theorem decodes_of_encodeOutgoing {encoded : EncodedMessage} (ho : outgoing.Valid z)
    (hbody : body.Writes z content fds) (hencode : encodeOutgoing outgoing body = .ok encoded) :
    ∃ message, decode z encoded.bytes encoded.unixFds = .ok message ∧
      Recovers outgoing body.signature content fds message := by
  obtain ⟨message, hfields, -⟩ := except_bind_eq_ok.mp hencode
  obtain ⟨rfl, hsized⟩ := sized_of_encodeFields hfields
  rw [encodeOutgoing_eq hbody hfields] at hencode
  by_cases hcount : fds.length > maxUnixFds
  · rw [if_pos hcount] at hencode
    cases hencode
  rw [if_neg hcount] at hencode
  by_cases hmax : (frameOf outgoing.kind outgoing.flags outgoing.serial
      (outgoing.fields body.signature fds.length) content).length > maxMessageSize
  · grind
  simp only [if_neg hmax] at hencode
  cases hencode
  obtain ⟨message, hdecode, hsame, hcarries⟩ := decode_frameOf (z := z) outgoing.kind outgoing.flags content fds
    ho.serial (valid_fields hsized fds.length)
    (nodup_fields outgoing body.signature fds.length) (Nat.le_of_not_lt hmax) (by
      intro message p hsame hcarries
      obtain ⟨hkind, -, -, -, -, hfds, -⟩ := id hsame
      exact validateMessage_run ho (carried_of_sameFrame hsame hcarries) hkind (Nat.le_of_not_lt hcount)
        (by rw [hfds]; rfl) hbody.signature hbody.empty (fun s => bodyBytes_run hsame s) p)
  obtain ⟨hkind, hflags, hserial, -, -, hfds, -⟩ := id hsame
  have hc := carried_of_sameFrame hsame hcarries
  refine ⟨message, hdecode, hkind, hflags, hserial, hc.replySerial, header_run rfl hc.path (),
    header_run rfl hc.interface (), header_run rfl hc.member (), header_run rfl hc.errorName (),
    header_run rfl hc.destination (), ?_, ?_, hc.declaredUnixFds, hfds, bodyBytes_run hsame ()⟩
  · have := hc.sender.isNone
    simpa using this
  · rw [header_run rfl hc.signature ()]
    grind

theorem encodeOutgoing_succeeds (hbody : body.Writes z content fds)
    (hsize : outgoing.wireSize body.signature content fds + 7 ≤ maxMessageSize) (hcount : fds.length ≤ maxUnixFds)
    (hsignature : body.signature.bytes.length < 256) : ∃ encoded, encodeOutgoing outgoing body = .ok encoded := by
  have hal := (align_spec (fixedHeaderLen +
    (layout fixedHeaderLen (outgoing.fields body.signature fds.length)).length) 8 (by decide)).1
  have happ := layout_append fixedHeaderLen (outgoing.fields body.signature 0)
    (if fds.length = 0 then [] else [Field.number 9 (UInt32.ofNat fds.length)])
  rw [← fields_count] at happ
  have hlayout : (layout fixedHeaderLen (outgoing.fields body.signature 0)).length ≤
      (layout fixedHeaderLen (outgoing.fields body.signature fds.length)).length := by
    rw [happ, length_append]
    omega
  unfold Outgoing.wireSize at hsize
  have hsized : ∀ f ∈ outgoing.fields body.signature 0, f.Sized := by
    intro f hf
    have hle := payload_le_layout (p := fixedHeaderLen) hf
    have hsmall : f.payload.length < 2 ^ 32 := by
      unfold maxMessageSize at hsize
      omega
    cases f with
    | text code type value =>
      simp only [Field.payload, Field.content, length_append] at hsmall
      exact Nat.lt_of_le_of_lt (by omega) hsmall
    | number code value => trivial
    | signature value =>
      obtain rfl : value = body.signature := by
        simp only [Outgoing.fields, textField, mem_append, Option.mem_toList, Option.map_eq_some_iff] at hf
        grind
      exact hsignature
  have hfields : encodeFields outgoing body.signature.bytes = .ok (replicate fixedHeaderLen 0 ++
      layout fixedHeaderLen (outgoing.fields body.signature 0)) := by
    rw [encodeFields_eq, foldlM_pushField_ok _ hsized (by rw [length_replicate]; omega), length_replicate]
  have hlen := length_frameOf outgoing.kind outgoing.flags outgoing.serial
    (outgoing.fields body.signature fds.length) content
  have hmax : ¬ (frameOf outgoing.kind outgoing.flags outgoing.serial
    (outgoing.fields body.signature fds.length) content).length > maxMessageSize := by omega
  rw [encodeOutgoing_eq hbody hfields, if_neg (Nat.not_lt.mpr hcount)]
  simp only [if_neg hmax]
  exact ⟨_, rfl⟩

end Assembly

/-- Every frame the encoder returns is decoded to the message that was sent, and
the encoder returns one whenever the frame stays seven bytes below the limit:
the string writer reserves sixteen bytes for each head of at least nine. -/
theorem decode_encodeOutgoing (z : Zvariant) (outgoing : Outgoing) (body : Body) (content : Bytes) (fds : List Fd)
    (ho : outgoing.Valid z) (hbody : body.Writes z content fds) :
    (∀ encoded, encodeOutgoing outgoing body = .ok encoded →
      ∃ message, decode z encoded.bytes encoded.unixFds = .ok message ∧
        Recovers outgoing body.signature content fds message) ∧
    (outgoing.wireSize body.signature content fds + 7 ≤ maxMessageSize → fds.length ≤ maxUnixFds →
      body.signature.bytes.length < 256 → ∃ encoded, encodeOutgoing outgoing body = .ok encoded) :=
  ⟨fun _ h => decodes_of_encodeOutgoing ho hbody h, encodeOutgoing_succeeds hbody⟩

def pingCall : Outgoing where
  kind := .methodCall
  flags := 0
  serial := 1
  replySerial := none
  path := some ⟨ofAscii "/", by decide⟩
  interface := none
  member := some ⟨ofAscii "Ping", by decide⟩
  errorName := none
  destination := none

def byteBody : Body := ⟨⟨ofAscii "y", by decide⟩, fun _ => some (1, 1), fun _ => some ([7], [3])⟩

theorem pingCall_decodes : ∃ encoded message, encodeOutgoing pingCall byteBody = .ok encoded ∧
    decode lenientZvariant encoded.bytes encoded.unixFds = .ok message ∧
    Recovers pingCall byteBody.signature [7] [3] message := by
  have hvalid : pingCall.Valid lenientZvariant :=
    ⟨by decide, ⟨rfl, rfl, rfl, rfl⟩, by decide, fun _ _ => rfl, by decide, by decide, by decide, by decide⟩
  have hbody : byteBody.Writes lenientZvariant [7] [3] := ⟨fun _ _ => rfl, fun _ _ => rfl, rfl, by decide⟩
  obtain ⟨hdecode, hencode⟩ := decode_encodeOutgoing lenientZvariant pingCall byteBody [7] [3] hvalid hbody
  obtain ⟨encoded, he⟩ := hencode (by decide) (by decide) (by decide)
  grind

end TensorDE.Dbus
