import TensorDE.Dbus.Wire

namespace TensorDE.Dbus

open Effect Bytes Codec List

variable {σ : Type} {z : Zvariant} {bytes : Bytes} {fieldsEnd : Nat} {endian : Endian}

theorem align_spec (value alignment : Nat) (h : 0 < alignment) :
    value ≤ align value alignment ∧ align value alignment < value + alignment := by
  have hdiv := Nat.div_add_mod (value + alignment - 1) alignment
  have hmod := Nat.mod_lt (value + alignment - 1) h
  rw [Nat.mul_comm] at hdiv
  unfold align
  omega

variable {a b : Nat}

theorem checkedAdd_eq (h : a + b < 2 ^ 64) : checkedAdd a b = some (a + b) := if_pos h

theorem checkedAdd_none (h : ¬ a + b < 2 ^ 64) : checkedAdd a b = none := if_neg h

variable {P : σ → Prop}

theorem readU32_triple {word : Bytes} (h : word.length = 4) (endian : Endian) :
    Triple P (readU32 word endian) (fun _ s => P s) := by
  intro s hs
  cases endian <;> simpa [readU32, h] using hs

theorem ofByte_triple (byte : UInt8) : Triple P (MessageKind.ofByte byte) (fun _ s => P s) := by
  unfold MessageKind.ofByte
  grind [Triple.fail, Triple.pure]

variable {values : Bytes} {start stop : Nat}

theorem slice_triple (h : start ≤ stop) (h' : stop ≤ values.length) :
    Triple P (slice values start stop : Op σ Error Bytes)
      (fun v s => P s ∧ v = (values.drop start).take (stop - start)) := by
  intro s hs
  simp [slice, h, h', hs]

theorem length_slice (h' : stop ≤ values.length) : ((values.drop start).take (stop - start)).length = stop - start := by
  simp
  omega

variable (bytes fieldsEnd) in
theorem take_triple (p len : Nat) :
    Triple (· = p) (take bytes fieldsEnd len) (fun v q => q = p + len ∧ q ≤ fieldsEnd ∧ q ≤ bytes.length ∧
      v = (bytes.drop p).take len) := by
  rintro p rfl
  by_cases hc : p + len < 2 ^ 64
  · by_cases hb : p + len > fieldsEnd ∨ p + len > bytes.length
    · simp [take, checkedAdd_eq hc, hb]
    · have hle : p + len ≤ bytes.length := by omega
      have hfe : p + len ≤ fieldsEnd := by omega
      simp [take, checkedAdd_eq hc, hb, slice, hle, hfe]
  · simp [take, checkedAdd_none hc]

variable (bytes fieldsEnd) in
theorem takeU8_triple (p : Nat) :
    Triple (· = p) (takeU8 bytes fieldsEnd) (fun b q => q = p + 1 ∧ q ≤ fieldsEnd ∧ bytes[p]? = some b) := by
  refine (take_triple bytes fieldsEnd p 1).bind fun v => ?_
  rintro q ⟨rfl, hq, hlen, rfl⟩
  have hp : p < bytes.length := by omega
  simp [byteAt, hq, hp]

theorem takeU32_triple (p : Nat) :
    Triple (· = p) (takeU32 bytes fieldsEnd endian) (fun _ q => q = p + 4 ∧ q ≤ fieldsEnd) := by
  refine (take_triple bytes fieldsEnd p 4).bind fun v => ?_
  rintro q ⟨rfl, hq, hlen, rfl⟩
  have h4 : ((bytes.drop p).take 4).length = 4 := by
    simp
    omega
  exact readU32_triple (P := fun q => q = p + 4 ∧ q ≤ fieldsEnd) h4 endian _ ⟨rfl, hq⟩

theorem validateZeroPadding_triple (padding : Bytes) (kind : String) :
    Triple P (validateZeroPadding padding kind) (fun _ s => P s) := by
  exact Triple.ite Triple.fail (Triple.pure fun _ h => h.1)

variable (bytes fieldsEnd) in
theorem alignFieldPosition_triple (p alignment : Nat) (ha : 0 < alignment) (hp : p + alignment < 2 ^ 64) :
    Triple (· = p) (alignFieldPosition bytes fieldsEnd alignment)
      (fun _ q => q = align p alignment ∧ q ≤ fieldsEnd ∧ q ≤ bytes.length) := by
  rintro p rfl
  obtain ⟨hle, _⟩ := align_spec p alignment ha
  obtain ⟨v, q, hv, rfl, hqe, hqb, _⟩ | ⟨e, t, he⟩ :=
    (take_triple bytes fieldsEnd p (align p alignment - p)).run rfl
  · have hq : p + (align p alignment - p) = align p alignment := by omega
    rw [hq] at hv hqe hqb
    have h := validateZeroPadding_triple
      (P := fun q => q = align p alignment ∧ q ≤ fieldsEnd ∧ q ≤ bytes.length) v "header field" _ ⟨rfl, hqe, hqb⟩
    simpa [alignFieldPosition, alignUsize, addUsize, checkedAdd_eq hp, subUsize, hle, hv] using h
  · simp [alignFieldPosition, alignUsize, addUsize, checkedAdd_eq hp, subUsize, hle, he]

/-- A stored range: inside the field region, UTF-8, and followed by NUL. -/
structure GoodRange (bytes : Bytes) (fieldsEnd : Nat) (range : Span) : Prop where
  start : fixedHeaderLen ≤ range.start
  order : range.start ≤ range.stop
  stop : range.stop < fieldsEnd
  bound : range.stop < bytes.length
  utf8 : isUtf8 ((bytes.drop range.start).take (range.stop - range.start)) = true
  nul : bytes[range.stop]? = some 0

theorem takeStringRange_triple (p len : Nat) (hp : fixedHeaderLen ≤ p) (hsize : bytes.length < 2 ^ 64) :
    Triple (· = p) (takeStringRange bytes fieldsEnd len)
      (fun range q => q = p + len + 1 ∧ q ≤ fieldsEnd ∧ GoodRange bytes fieldsEnd range) := by
  rintro p rfl
  obtain ⟨v, _, hv, rfl, hqe, hqb, rfl⟩ | ⟨e, t, he⟩ := (take_triple bytes fieldsEnd p len).run rfl
  swap
  · simp [takeStringRange, he]
  obtain ⟨b, _, hb, rfl, hbe, hget⟩ | ⟨e, t, he⟩ := (takeU8_triple bytes fieldsEnd (p + len)).run rfl
  swap
  · simp [takeStringRange, hv, he]
  by_cases hz : b = 0
  swap
  · simp [takeStringRange, hv, hb, hz]
  subst hz
  cases hu : isUtf8 ((bytes.drop p).take len) with
  | false => simp [takeStringRange, hv, hb, hu]
  | true =>
    have hlt : p + len < bytes.length := (List.getElem?_eq_some_iff.mp hget).1
    have hadd : p + len < 2 ^ 64 := by omega
    have hgood : GoodRange bytes fieldsEnd ⟨p, p + len⟩ :=
      ⟨hp, by simp, by simp; omega, hlt, by simpa using hu, hget⟩
    simp [takeStringRange, hv, hb, hu, addUsize, checkedAdd_eq hadd, hgood, hbe]

variable (bytes fieldsEnd) in
theorem readFieldHead_triple (p : Nat) : Triple (· = p) (readFieldHead bytes fieldsEnd)
      (fun head q => p < q ∧ q ≤ fieldsEnd ∧ head.2.1 = p + 1) := by
  rintro p rfl
  obtain ⟨code, _, hcode, rfl, hce, _⟩ | ⟨e, t, he⟩ := (takeU8_triple bytes fieldsEnd p).run rfl
  swap
  · simp [readFieldHead, he]
  by_cases hzero : code = 0
  · simp [readFieldHead, hcode, hzero]
  obtain ⟨len, _, hlen, rfl, hle, _⟩ | ⟨e, t, he⟩ := (takeU8_triple bytes fieldsEnd (p + 1)).run rfl
  swap
  · simp [readFieldHead, hcode, hzero, he]
  obtain ⟨sig, _, hsig, rfl, hse, _⟩ | ⟨e, t, he⟩ :=
    (take_triple bytes fieldsEnd (p + 1 + 1) len.toNat).run rfl
  swap
  · simp [readFieldHead, hcode, hzero, hlen, he]
  obtain ⟨nul, _, hnul, rfl, hne, _⟩ | ⟨e, t, he⟩ :=
    (takeU8_triple bytes fieldsEnd (p + 1 + 1 + len.toNat)).run rfl
  swap
  · simp [readFieldHead, hcode, hzero, hlen, hsig, he]
  by_cases hterm : nul = 0
  · simp [readFieldHead, hcode, hzero, hlen, hsig, hnul, hterm, hne]
    omega
  · simp [readFieldHead, hcode, hzero, hlen, hsig, hnul, hterm]

/-- The one thing asked of the value library: it does not claim bytes it was not given. -/
def Zvariant.Bounded (z : Zvariant) : Prop :=
  ∀ endian position data fds n, z.consume endian position data fds = some n → n ≤ data.length

def FieldValue.Good (bytes : Bytes) (fieldsEnd : Nat) : FieldValue → Prop
  | .text range => GoodRange bytes fieldsEnd range
  | .signature range => GoodRange bytes fieldsEnd range
  | _ => True

theorem skipUnknownField_triple {p variantPosition : Nat} (signature : Bytes) (unixFds : List Fd)
    (hz : z.Bounded) (hv : variantPosition ≤ fieldsEnd) (hb : fieldsEnd ≤ bytes.length)
    (hsize : bytes.length < 2 ^ 64) :
    Triple (· = p) (skipUnknownField z bytes fieldsEnd endian variantPosition signature unixFds)
      (fun _ q => variantPosition ≤ q ∧ q ≤ fieldsEnd) := by
  refine Triple.ite Triple.fail (Triple.ite Triple.fail (Triple.ite Triple.fail ?_))
  refine (slice_triple hv hb).bind fun data => ?_
  refine (Triple.okOr (Q := fun n s => n ≤ fieldsEnd - variantPosition) ?_).bind fun consumed => ?_
  · rintro n hn s ⟨_, rfl⟩
    have hle := hz _ _ _ _ _ hn
    rwa [length_slice hb] at hle
  · refine (Triple.okOr (Q := fun q s => variantPosition ≤ q ∧ q ≤ fieldsEnd) ?_).bind fun q => ?_
    · grind [checkedAdd]
    · refine (Triple.set (Q := fun _ s => s = q ∧ variantPosition ≤ q ∧ q ≤ fieldsEnd)
        fun s hs => ⟨rfl, hs⟩).bind fun _ => ?_
      grind [Triple.fail, Triple.pure]

variable {p : Nat}

theorem readText_triple (hp : fixedHeaderLen ≤ p) (hpe : p ≤ fieldsEnd)
    (hb : fieldsEnd ≤ bytes.length) (hsize : bytes.length + 8 < 2 ^ 64) : Triple (· = p) (do
        alignFieldPosition bytes fieldsEnd 4 let len ← takeU32 bytes fieldsEnd endian
        FieldValue.text <$> takeStringRange bytes fieldsEnd len.toNat)
      (fun value q => p ≤ q ∧ q ≤ fieldsEnd ∧ value.Good bytes fieldsEnd) := by
  have hal := (align_spec p 4 (by decide)).1
  refine (alignFieldPosition_triple bytes fieldsEnd p 4 (by decide) (by omega)).bind fun _ => ?_
  refine ((takeU32_triple (align p 4)).weaken (fun _ hq => hq.1) fun _ _ h => h).bind fun len => ?_
  refine ((takeStringRange_triple (align p 4 + 4) len.toNat (by omega) (by omega)).weaken
    (fun _ hq => hq.1) fun _ _ h => h).map ?_
  rintro range q ⟨rfl, hqe, hgood⟩
  exact ⟨by omega, hqe, hgood⟩

theorem readFieldValue_triple (endian : Endian) (variantPosition : Nat) (signature : Bytes) (unixFds : List Fd)
    (hz : z.Bounded) (hp : fixedHeaderLen ≤ p) (hpe : p ≤ fieldsEnd) (hv : variantPosition ≤ p)
    (hb : fieldsEnd ≤ bytes.length) (hsize : bytes.length + 8 < 2 ^ 64) :
    Triple (· = p) (readFieldValue z bytes fieldsEnd endian variantPosition signature unixFds)
      (fun value q => variantPosition ≤ q ∧ q ≤ fieldsEnd ∧ value.Good bytes fieldsEnd) := by
  have hal := (align_spec p 4 (by decide)).1
  have hwiden : ∀ {value : FieldValue} {q}, p ≤ q ∧ q ≤ fieldsEnd ∧ value.Good bytes fieldsEnd →
      variantPosition ≤ q ∧ q ≤ fieldsEnd ∧ value.Good bytes fieldsEnd :=
    fun h => ⟨Nat.le_trans hv h.1, h.2⟩
  refine Triple.ite ?_ (Triple.ite ?_ (Triple.ite ?_ ?_))
  · exact (readText_triple hp hpe hb hsize).weaken (fun _ h => h.1) fun _ _ h => hwiden h
  · refine ((takeU8_triple bytes fieldsEnd p).weaken (fun _ h => h.1.1) fun _ _ h => h).bind fun len => ?_
    refine ((takeStringRange_triple (p + 1) len.toNat (by omega) (by omega)).weaken
      (fun _ h => h.1) fun _ _ h => h).map ?_
    rintro range q ⟨rfl, hqe, hgood⟩
    exact ⟨by omega, hqe, hgood⟩
  · refine ((alignFieldPosition_triple bytes fieldsEnd p 4 (by decide) (by omega)).weaken (fun _ h => h.1.1.1)
      fun _ _ h => h).bind fun _ => ?_
    refine ((takeU32_triple (align p 4)).weaken (fun _ h => h.1) fun _ _ h => h).map ?_
    rintro number q ⟨rfl, hqe⟩
    exact ⟨by omega, hqe, trivial⟩
  · refine ((skipUnknownField_triple (p := p) signature unixFds hz (by omega) hb (by omega)).weaken
      (fun _ h => h.1.1.1) fun _ _ h => h).bind fun _ => ?_
    exact Triple.pure fun q h => ⟨h.1, h.2, trivial⟩

/-- The field region from a position on, as the sequence of field codes in it. -/
inductive FieldsFrom (z : Zvariant) (bytes : Bytes) (fieldsEnd : Nat) (endian : Endian)
    (unixFds : List Fd) : Nat → List UInt8 → Prop where
  | stop {p : Nat} : fieldsEnd ≤ p → FieldsFrom z bytes fieldsEnd endian unixFds p []
  | padding {p : Nat} : p < fieldsEnd → alignFieldPosition bytes fieldsEnd 8 p = .ok () fieldsEnd →
      FieldsFrom z bytes fieldsEnd endian unixFds p []
  | field {p q r t : Nat} {head : UInt8 × Nat × Bytes} {value : FieldValue} {codes : List UInt8} :
      p < fieldsEnd → alignFieldPosition bytes fieldsEnd 8 p = .ok () q → q ≠ fieldsEnd →
      readFieldHead bytes fieldsEnd q = .ok head r →
      readFieldValue z bytes fieldsEnd endian head.2.1 head.2.2 unixFds r = .ok value t →
      FieldsFrom z bytes fieldsEnd endian unixFds t codes →
      FieldsFrom z bytes fieldsEnd endian unixFds p (head.1 :: codes)

def Message.ranges (message : Message) : List Span :=
  [message.path, message.interface, message.member, message.errorName, message.destination,
    message.sender, message.signature].filterMap id

/-- The part of a message that the header fields do not touch. -/
def Message.SameFrame (m m' : Message) : Prop :=
  m'.kind = m.kind ∧ m'.flags = m.flags ∧ m'.serial = m.serial ∧ m'.frame = m.frame ∧
    m'.bodyRange = m.bodyRange ∧ m'.unixFds = m.unixFds ∧ m'.bodyPosition = m.bodyPosition ∧
    m'.endian = m.endian

theorem Message.SameFrame.refl (m : Message) : m.SameFrame m := ⟨rfl, rfl, rfl, rfl, rfl, rfl, rfl, rfl⟩

theorem Message.SameFrame.trans {m m' m'' : Message} (h : m.SameFrame m') (h' : m'.SameFrame m'') :
    m.SameFrame m'' := by
  grind [Message.SameFrame]

theorem assignField_sameFrame (message : Message) (code : UInt8) (value : FieldValue) :
    message.SameFrame (assignField message code value) := by
  cases value with
  | text range => simp only [assignField]; split <;> exact Message.SameFrame.refl message
  | signature range => simp only [assignField]; split <;> exact Message.SameFrame.refl message
  | number value => simp only [assignField]; split <;> exact Message.SameFrame.refl message
  | unknown => exact Message.SameFrame.refl message

variable {message : Message} {value : FieldValue}

theorem mem_ranges_assignField {code : UInt8} {r : Span} (h : r ∈ (assignField message code value).ranges) :
    r ∈ message.ranges ∨ value = .text r ∨ value = .signature r := by
  cases value with
  | text range =>
    simp only [assignField] at h
    split at h <;> simp [Message.ranges] at h ⊢ <;> grind
  | signature range =>
    simp only [assignField] at h
    split at h <;> simp [Message.ranges] at h ⊢ <;> grind
  | number value =>
    simp only [assignField] at h
    split at h <;> exact .inl h
  | unknown => exact .inl h

theorem assignField_ranges (code : UInt8)
    (hm : ∀ r ∈ message.ranges, GoodRange bytes fieldsEnd r) (hv : value.Good bytes fieldsEnd) :
    ∀ r ∈ (assignField message code value).ranges, GoodRange bytes fieldsEnd r := by
  intro r hr
  obtain hr | rfl | rfl := mem_ranges_assignField hr
  · exact hm r hr
  · exact hv
  · exact hv

def IsKnown (code : UInt8) : Prop := knownFieldSignature code ≠ none

theorem checkKnown_triple (known : Nat) (code : UInt8) (signature : Bytes) :
    Triple P (checkKnown known code signature) (fun known' s => P s ∧
      (∀ i, known.testBit i = true → known'.testBit i = true) ∧
      (IsKnown code → known.testBit code.toNat = false ∧ known'.testBit code.toNat = true)) := by
  unfold checkKnown
  cases hk : knownFieldSignature code with
  | none => exact Triple.pure fun s hs => ⟨hs, fun _ h => h, fun h => absurd hk h⟩
  | some expected =>
    refine Triple.ite Triple.fail (Triple.ite Triple.fail (Triple.pure fun s hs => ?_))
    obtain ⟨⟨hs, hfree⟩, _⟩ := hs
    have hbit : known.testBit code.toNat = false := by
      have hzero := congrArg (fun n => n.testBit code.toNat) (not_not.mp hfree)
      simpa using hzero
    grind -linarith

theorem parseFieldsLoop_triple (hz : z.Bounded) (hb : fieldsEnd ≤ bytes.length)
    (hsize : bytes.length + 8 < 2 ^ 64) (rounds : Nat) {known p : Nat}
    (seen : List UInt8) (hp : fixedHeaderLen ≤ p) (hpe : p ≤ fieldsEnd) (hrounds : fieldsEnd < p + rounds)
    (hknown : ∀ c ∈ seen, IsKnown c → known.testBit c.toNat = true)
    (hgood : ∀ r ∈ message.ranges, GoodRange bytes fieldsEnd r) :
    Triple (· = p) (parseFieldsLoop z bytes fieldsEnd endian rounds known message)
      (fun m' _ => message.SameFrame m' ∧ (∀ r ∈ m'.ranges, GoodRange bytes fieldsEnd r) ∧
        ∃ codes, FieldsFrom z bytes fieldsEnd endian message.unixFds p codes ∧
          ∀ c, IsKnown c → codes.count c ≤ 1 ∧ (c ∈ seen → c ∉ codes)) := by
  induction rounds generalizing known p message seen with
  | zero => omega
  | succ rounds ih =>
    rintro p rfl
    by_cases hlt : p < fieldsEnd
    swap
    · have hstop : FieldsFrom z bytes fieldsEnd endian message.unixFds p [] := .stop (Nat.le_of_not_lt hlt)
      simpa [parseFieldsLoop, hlt] using ⟨Message.SameFrame.refl message, hgood, [], hstop, by simp⟩
    obtain ⟨_, _, hal, rfl, hqe, hqb⟩ | ⟨e, t, he⟩ :=
      (alignFieldPosition_triple bytes fieldsEnd p 8 (by decide) (by omega)).run rfl
    swap
    · simp [parseFieldsLoop, hlt, he]
    have hpq := (align_spec p 8 (by decide)).1
    by_cases hend : align p 8 = fieldsEnd
    · rw [hend] at hal
      simpa [parseFieldsLoop, hlt, hal] using
        ⟨Message.SameFrame.refl message, hgood, [], FieldsFrom.padding hlt hal, by simp⟩
    obtain ⟨head, r, hhead, hqr, hre, hvp⟩ | ⟨e, t, he⟩ :=
      (readFieldHead_triple bytes fieldsEnd (align p 8)).run rfl
    swap
    · simp [parseFieldsLoop, hlt, hal, hend, he]
    obtain ⟨known', r', hck, hr', hmono, hnew⟩ | ⟨e, t, he⟩ :=
      (checkKnown_triple (P := (· = r)) known head.1 head.2.2).run rfl
    swap
    · simp [parseFieldsLoop, hlt, hal, hend, hhead, he]
    rw [hr'] at hck
    obtain ⟨value, t, hval, hvt, hte, hvgood⟩ | ⟨e, t, he⟩ :=
      (readFieldValue_triple endian (p := r) head.2.1 head.2.2
        message.unixFds hz (by omega) hre (by omega) hb hsize).run rfl
    swap
    · simp [parseFieldsLoop, hlt, hal, hend, hhead, hck, he]
    have hframe := assignField_sameFrame message head.1 value
    have hfds : (assignField message head.1 value).unixFds = message.unixFds := hframe.2.2.2.2.2.1
    have hseen : ∀ c ∈ head.1 :: seen, IsKnown c → known'.testBit c.toNat = true := by
      intro c hc hk
      obtain rfl | hc := mem_cons.mp hc
      · exact (hnew hk).2
      · exact hmono _ (hknown c hc hk)
    have hrec := ih (head.1 :: seen) (by omega) hte (by omega) hseen (assignField_ranges head.1 hgood hvgood)
    have hrun : parseFieldsLoop z bytes fieldsEnd endian (rounds + 1) known message p =
        parseFieldsLoop z bytes fieldsEnd endian rounds known' (assignField message head.1 value) t := by
      simp [parseFieldsLoop, hlt, hal, hend, hhead, hck, hval]
    rw [hrun]
    refine hrec.weaken (fun _ h => h) ?_ t rfl
    rintro m' q ⟨hsame, hranges, codes, hfrom, hcount⟩
    rw [hfds] at hfrom
    refine ⟨hframe.trans hsame, hranges, head.1 :: codes,
      .field hlt hal hend hhead hval hfrom, fun c hk => ?_⟩
    grind -linarith

section Validation

variable {P : σ → Prop} {message : Message}

variable {range : Option Span}

theorem header_triple (h : ∀ r, range = some r → GoodRange message.frame fieldsEnd r) :
    Triple P (message.header range) (fun _ s => P s) := by
  cases range with
  | none => exact Triple.pure fun _ h => h
  | some r =>
    have hr := h r rfl
    refine (slice_triple (P := P) hr.order (Nat.le_of_lt hr.bound)).bind fun text => ?_
    rintro s ⟨hs, rfl⟩
    simpa [hr.utf8] using hs

theorem validateValue_triple {valid : Bytes → Bool} {text : String}
    (h : ∀ r, range = some r → GoodRange message.frame fieldsEnd r) :
    Triple P (validateValue message range valid text) (fun _ s => P s) := by
  refine (header_triple h).bind fun value => ?_
  grind [Triple.pure, Triple.fail]

theorem mem_ranges {r : Span} : r ∈ message.ranges ↔
    some r ∈ [message.path, message.interface, message.member, message.errorName,
      message.destination, message.sender, message.signature] := by
  simp [Message.ranges]

theorem validateMessage_triple (fieldsEnd : Nat) (hgood : ∀ r ∈ message.ranges, GoodRange message.frame fieldsEnd r)
    (hbody : message.bodyRange.start ≤ message.bodyRange.stop)
    (hbody' : message.bodyRange.stop ≤ message.frame.length) :
    Triple P (validateMessage z message) (fun _ s => P s) := by
  have hfield : ∀ {range : Option Span}, range ∈ [message.path, message.interface, message.member,
      message.errorName, message.destination, message.sender, message.signature] →
      ∀ r, range = some r → GoodRange message.frame fieldsEnd r := by
    rintro range hm r rfl
    exact hgood r (mem_ranges.mpr hm)
  have hunixFds : Triple P (validateUnixFds message) (fun _ s => P s) :=
    Triple.ite Triple.fail (Triple.ite Triple.fail (Triple.pure fun _ h => h.1.1))
  have hrequired : Triple P (validateRequiredFields message) (fun _ s => P s) := by
    unfold validateRequiredFields
    cases missingField message with
    | none => exact Triple.pure fun _ h => h
    | some field => exact Triple.fail
  have hsemantics : Triple P (validateFieldSemantics message) (fun _ s => P s) := by
    unfold validateFieldSemantics
    cases forbiddenField message with
    | none => exact Triple.pure fun _ h => h
    | some field => exact Triple.fail
  have hvalues : Triple P (validateFieldValues z message) (fun _ s => P s) := by
    refine (validateValue_triple (hfield (by simp))).bind fun _ => ?_
    refine (validateValue_triple (hfield (by simp))).bind fun _ => ?_
    refine (validateValue_triple (hfield (by simp))).bind fun _ => ?_
    refine (validateValue_triple (hfield (by simp))).bind fun _ => ?_
    refine (validateValue_triple (hfield (by simp))).bind fun _ => ?_
    refine (validateValue_triple (hfield (by simp))).bind fun _ => ?_
    exact Triple.ite Triple.fail (Triple.pure fun _ h => h.1)
  have hsignature : Triple P (validateBodySignature z message) (fun _ s => P s) := by
    refine (header_triple (hfield (by simp))).bind fun signature => ?_
    refine Triple.ite Triple.fail ?_
    refine (slice_triple hbody hbody').bind fun body => ?_
    exact Triple.ite Triple.fail (Triple.pure fun _ h => h.1.1.1)
  exact hunixFds.bind fun _ => hrequired.bind fun _ => hsemantics.bind fun _ => hvalues.bind fun _ => hsignature

end Validation

def endianOf (byte : UInt8) : Option Endian :=
  if byte = 108 then some .little else if byte = 66 then some .big else none

def wordAt (bytes : Bytes) (endian : Endian) (start : Nat) : UInt32 :=
  match endian with
  | .little => UInt32.ofNat (ofLe ((bytes.drop start).take 4))
  | .big => UInt32.ofNat (ofBe ((bytes.drop start).take 4))

theorem parseEndian_run (byte : UInt8) (s : σ) : parseEndian byte s =
    match endianOf byte with
    | some endian => .ok endian s
    | none => .error (.error (.invalidMessageAbout "invalid endian marker" [byte])) s := by
  by_cases h : byte = 108 <;> by_cases h' : byte = 66 <;> simp [parseEndian, endianOf, h, h']

theorem readU32_run (bytes : Bytes) (endian : Endian) (start : Nat) (h : start + 4 ≤ bytes.length) (s : σ) :
    readU32 ((bytes.drop start).take 4) endian s = .ok (wordAt bytes endian start) s := by
  have hlen : ((bytes.drop start).take 4).length = 4 := by
    simp
    omega
  cases endian <;> simp [readU32, hlen, wordAt]

theorem slice_run (values : Bytes) (start len : Nat) (h : start + len ≤ values.length) (s : σ) :
    (slice values start (start + len) : Op σ Error Bytes) s = .ok ((values.drop start).take len) s := by
  simp [slice, h]

/-- The length of the frame whose fixed header stands at the start of `bytes`. -/
def headerTotal (bytes : Bytes) (endian : Endian) : Nat :=
  align (fixedHeaderLen + (wordAt bytes endian 12).toNat) 8 + (wordAt bytes endian 4).toNat

theorem align_header_lt (word : UInt32) : align (fixedHeaderLen + word.toNat) 8 < 2 ^ 33 := by
  grind [word.toNat_lt, align_spec, fixedHeaderLen]

theorem alignUsize_run (value alignment : Nat) (h : value + alignment < 2 ^ 64) (s : σ) :
    alignUsize value alignment s = .ok (align value alignment) s := by
  simp [alignUsize, addUsize, checkedAdd_eq h]

variable {fixed : Bytes}

theorem frameLen_run (hlen : fixed.length = fixedHeaderLen) {byte kindByte : UInt8} {kind : MessageKind} {s : σ} (h0 : fixed[0]? = some byte)
    (hend : endianOf byte = some endian) (h3 : fixed[3]? = some 1) (h1 : fixed[1]? = some kindByte)
    (hkind : MessageKind.ofByte kindByte s = .ok kind s) : frameLen fixed s =
      if headerTotal fixed endian > maxMessageSize then .error (.error (.messageTooLarge maxMessageSize)) s
      else .ok (headerTotal fixed endian) s := by
  unfold fixedHeaderLen at hlen
  have hb := (wordAt fixed endian 4).toNat_lt
  have hf := (wordAt fixed endian 12).toNat_lt
  have hal := align_header_lt (wordAt fixed endian 12)
  have h4 := readU32_run fixed endian 4 (by omega) s
  have h12 := readU32_run fixed endian 12 (by omega) s
  have hs4 : (slice fixed 4 8 : Op σ Error Bytes) s = _ := slice_run fixed 4 4 (by omega) s
  have hs12 : (slice fixed 12 16 : Op σ Error Bytes) s = _ := slice_run fixed 12 4 (by omega) s
  have hsum : fixedHeaderLen + (wordAt fixed endian 12).toNat + 8 < 2 ^ 64 := by
    unfold fixedHeaderLen
    omega
  have hadd := checkedAdd_eq (a := fixedHeaderLen) (b := (wordAt fixed endian 12).toNat) (by omega)
  have htot : checkedAdd (align (fixedHeaderLen + (wordAt fixed endian 12).toNat) 8)
      (wordAt fixed endian 4).toNat = some (headerTotal fixed endian) := checkedAdd_eq (by omega)
  by_cases hmax : headerTotal fixed endian > maxMessageSize <;>
    simp [frameLen, byteAt, h0, h1, h3, parseEndian_run, hend, hkind, hs4, hs12, h4, h12, hadd,
      alignUsize_run _ _ hsum, htot, hmax]

theorem frameLen_triple (hlen : fixed.length = fixedHeaderLen) :
    Triple P (frameLen fixed) (fun total s => P s ∧ ∃ byte endian, fixed[0]? = some byte ∧
      endianOf byte = some endian ∧ total = headerTotal fixed endian ∧ total ≤ maxMessageSize) := by
  intro s hs
  have hlen' := hlen
  unfold fixedHeaderLen at hlen'
  have h0 : fixed[0]? = some fixed[0] := getElem?_eq_getElem (by omega)
  have h1 : fixed[1]? = some fixed[1] := getElem?_eq_getElem (by omega)
  have h3 : fixed[3]? = some fixed[3] := getElem?_eq_getElem (by omega)
  cases hend : endianOf fixed[0] with
  | none => simp [frameLen, byteAt, h0, parseEndian_run, hend]
  | some endian =>
    by_cases hv : fixed[3] = 1
    swap
    · simp [frameLen, byteAt, h0, h3, parseEndian_run, hend, hv]
    obtain ⟨kind, s', hkind, rfl⟩ | ⟨e, t, he⟩ := (ofByte_triple (P := (· = s)) fixed[1]).run rfl
    swap
    · simp [frameLen, byteAt, h0, h1, h3, parseEndian_run, hend, hv, he]
    rw [frameLen_run hlen h0 hend (hv ▸ h3) h1 hkind]
    grind

theorem wordAt_take (bytes : Bytes) (endian : Endian) (h : start + 4 ≤ fixedHeaderLen) :
    wordAt (bytes.take fixedHeaderLen) endian start = wordAt bytes endian start := by
  have hslice : ((bytes.take fixedHeaderLen).drop start).take 4 = (bytes.drop start).take 4 := by
    rw [drop_take, take_take]
    congr 1
    omega
  cases endian <;> simp [wordAt, hslice]

structure Decoded (z : Zvariant) (bytes : Bytes) (unixFds : List Fd) (message : Message) : Prop where
  frame : message.frame = bytes
  fds : message.unixFds = unixFds
  total : (frameLen (bytes.take fixedHeaderLen) : Op Nat Error Nat) 0 = .ok bytes.length 0
  body : message.bodyRange.stop = bytes.length ∧
    message.bodyRange.start + (wordAt bytes message.endian 4).toNat = bytes.length
  ranges : ∀ r ∈ message.ranges,
    GoodRange bytes (fixedHeaderLen + (wordAt bytes message.endian 12).toNat) r
  fields : ∃ codes, FieldsFrom z bytes (fixedHeaderLen + (wordAt bytes message.endian 12).toNat)
    message.endian unixFds fixedHeaderLen codes ∧ ∀ c, IsKnown c → codes.count c ≤ 1

theorem headerTotal_take (bytes : Bytes) (endian : Endian) :
    headerTotal (bytes.take fixedHeaderLen) endian = headerTotal bytes endian := by
  rw [headerTotal, headerTotal, wordAt_take bytes endian (by decide), wordAt_take bytes endian (by decide)]

theorem addUsize_run (h : a + b < 2 ^ 64) (s : σ) : (addUsize a b : Op σ Error Nat) s = .ok (a + b) s := by
  simp [addUsize, checkedAdd_eq h]

theorem parseFields_triple (endian : Endian) (message : Message) (hz : z.Bounded)
    (hb : fieldsEnd ≤ bytes.length) (hsize : bytes.length + 8 < 2 ^ 64) (hstart : fixedHeaderLen ≤ fieldsEnd)
    (hblank : message.ranges = []) (p : Nat) : Triple (· = p) (parseFields z bytes fieldsEnd endian message)
      (fun m' _ => message.SameFrame m' ∧ (∀ r ∈ m'.ranges, GoodRange bytes fieldsEnd r) ∧
        ∃ codes, FieldsFrom z bytes fieldsEnd endian message.unixFds fixedHeaderLen codes ∧
          ∀ c, IsKnown c → codes.count c ≤ 1) := by
  refine (Triple.set (Q := fun _ s => s = fixedHeaderLen) fun _ _ => rfl).bind fun _ => ?_
  refine (parseFieldsLoop_triple hz hb hsize (fieldsEnd + 1) [] (Nat.le_refl _) hstart (by omega)
    (by simp) (by simp [hblank])).weaken (fun _ h => h) ?_
  grind

theorem decodeFields_triple (endian : Endian) (hz : z.Bounded) (unixFds : List Fd)
    (hmatch : bytes.length = headerTotal bytes endian) (hmax : bytes.length ≤ maxMessageSize)
    (htotal : (frameLen (bytes.take fixedHeaderLen) : Op Nat Error Nat) 0 = .ok bytes.length 0)
    (kind : MessageKind) (flags : UInt8) (serial : UInt32) (p : Nat) :
    Triple (· = p) (decodeFields z bytes unixFds kind flags serial endian (wordAt bytes endian 12)
      (wordAt bytes endian 4)) (fun message _ => Decoded z bytes unixFds message) := by
  rintro p rfl
  have hal := align_spec (fixedHeaderLen + (wordAt bytes endian 12).toNat) 8 (by decide)
  have hsplit : bytes.length = align (fixedHeaderLen + (wordAt bytes endian 12).toNat) 8 +
      (wordAt bytes endian 4).toNat := hmatch
  unfold maxMessageSize at hmax
  have hadd := addUsize_run (a := fixedHeaderLen) (b := (wordAt bytes endian 12).toNat) (by omega) p
  have halign := alignUsize_run (fixedHeaderLen + (wordAt bytes endian 12).toNat) 8 (by omega) p
  have hend := addUsize_run (a := align (fixedHeaderLen + (wordAt bytes endian 12).toNat) 8)
    (b := (wordAt bytes endian 4).toNat) (by omega) p
  obtain ⟨message, q, hparse, hsame, hranges, hfields⟩ | ⟨e, t, he⟩ :=
    (parseFields_triple endian (blankMessage kind flags serial endian bytes unixFds
        (align (fixedHeaderLen + (wordAt bytes endian 12).toNat) 8)
        (align (fixedHeaderLen + (wordAt bytes endian 12).toNat) 8 + (wordAt bytes endian 4).toNat)) hz
      (show fixedHeaderLen + (wordAt bytes endian 12).toNat ≤ bytes.length by omega) (by omega) (by omega) rfl p).run rfl
  swap
  · simp [decodeFields, hadd, halign, hend, he]
  obtain ⟨_, _, _, hframe, hbody, hfds, _, hendian⟩ := hsame
  have hdec : Decoded z bytes unixFds message := by
    refine ⟨hframe, hfds, htotal, ?_, ?_, ?_⟩
    · rw [hbody, hendian]
      exact ⟨hsplit.symm, hsplit.symm⟩
    · rw [hendian]
      exact hranges
    · rw [hendian]
      exact hfields
  have hrest : Triple (· = q) (do
      validateZeroPadding (← slice bytes (fixedHeaderLen + (wordAt bytes endian 12).toNat)
        (align (fixedHeaderLen + (wordAt bytes endian 12).toNat) 8)) "header"
      validateMessage z message
      pure message) (fun message _ => Decoded z bytes unixFds message) := by
    refine (slice_triple hal.1 (by omega)).bind fun padding => ?_
    refine (validateZeroPadding_triple padding "header").bind fun _ => ?_
    refine (validateMessage_triple (fixedHeaderLen + (wordAt bytes endian 12).toNat) ?_ ?_ ?_).bind
      fun _ => Triple.pure fun _ _ => hdec
    · rw [hdec.frame]
      exact hranges
    · have := hdec.body
      omega
    · rw [hdec.frame]
      exact Nat.le_of_eq hdec.body.1
  have h := hrest q rfl
  simpa [decodeFields, hadd, halign, hend, hparse] using h

theorem decodeMessage_triple (hz : z.Bounded) (bytes : Bytes) (unixFds : List Fd) :
    Triple (· = 0) (decodeMessage z bytes unixFds) (fun message _ => Decoded z bytes unixFds message) := by
  have h16 : fixedHeaderLen = 16 := rfl
  rintro p rfl
  by_cases hshort : bytes.length < fixedHeaderLen
  · simp [decodeMessage, hshort]
  have hlen : (bytes.take fixedHeaderLen).length = fixedHeaderLen := by
    rw [length_take]
    omega
  obtain ⟨total, _, htotal, rfl, byte, endian, h0, hend, rfl, hmax⟩ | ⟨e, t, he⟩ :=
    (frameLen_triple (P := (· = 0)) hlen).run rfl
  swap
  · simp [decodeMessage, hshort, he]
  rw [headerTotal_take] at htotal hmax
  by_cases hmatch : bytes.length = headerTotal bytes endian
  swap
  · simp [decodeMessage, hshort, htotal, hmatch]
  rw [← hmatch] at htotal hmax
  obtain ⟨kindByte, h1⟩ : ∃ b, (bytes.take fixedHeaderLen)[1]? = some b := ⟨_, getElem?_eq_getElem (by omega)⟩
  obtain ⟨flags, h2⟩ : ∃ b, (bytes.take fixedHeaderLen)[2]? = some b := ⟨_, getElem?_eq_getElem (by omega)⟩
  obtain ⟨kind, _, hkind, rfl⟩ | ⟨e, t, he⟩ := (ofByte_triple (P := (· = 0)) kindByte).run rfl
  swap
  · simp [decodeMessage, hshort, htotal, byteAt, h0, h1, parseEndian_run, hend, he]
  have hword : ∀ start, start + 4 ≤ fixedHeaderLen →
      ∃ v, (slice (bytes.take fixedHeaderLen) start (start + 4) : Op Nat Error Bytes) 0 = .ok v 0 ∧
        readU32 v endian (0 : Nat) = .ok (wordAt bytes endian start) 0 := by
    intro start hstart
    refine ⟨_, slice_run _ _ _ (by omega) 0, ?_⟩
    rw [← wordAt_take bytes endian hstart]
    exact readU32_run _ endian _ (by omega) 0
  obtain ⟨v4, hs4, hr4⟩ := hword 4 (by decide)
  obtain ⟨v8, hs8, hr8⟩ := hword 8 (by decide)
  obtain ⟨v12, hs12, hr12⟩ := hword 12 (by decide)
  by_cases hserial : wordAt bytes endian 8 = 0
  · simp [decodeMessage, hshort, htotal, byteAt, h0, h1, h2, parseEndian_run, hend, hkind, hs8, hr8, hserial]
  · have h := decodeFields_triple endian hz unixFds hmatch hmax htotal kind flags
      (wordAt bytes endian 8) 0 0 rfl
    simpa [decodeMessage, hshort, htotal, byteAt, h0, h1, h2, parseEndian_run, hend, hkind, hs4, hr4, hs8,
      hr8, hs12, hr12, hserial] using h

/-- Decoding arbitrary bytes returns a message or an error: no index leaves its
slice, no sum overflows, the field loop ends. A returned message is `Decoded`. -/
theorem decode_total (z : Zvariant) (hz : z.Bounded) (bytes : Bytes) (unixFds : List Fd) :
    (∃ e, decode z bytes unixFds = .error (.error e)) ∨
      ∃ message, decode z bytes unixFds = .ok message ∧ Decoded z bytes unixFds message := by
  obtain ⟨message, t, hm, hdec⟩ | ⟨e, t, he⟩ := (decodeMessage_triple hz bytes unixFds).run rfl
  · grind [decode]
  · exact .inl ⟨e, by simp [decode, he]⟩

/-- A value library that accepts every name and decodes no unknown field. -/
def lenientZvariant : Zvariant := ⟨fun _ => true, fun _ => true, fun _ => true, fun _ _ _ _ => none⟩

def replyFrame : Bytes := [108, 2, 0, 1, 0, 0, 0, 0, 7, 0, 0, 0, 8, 0, 0, 0, 5, 1, 117, 0, 3, 0, 0, 0]

theorem replyFrame_decodes : ∃ message, decode lenientZvariant replyFrame [] = .ok message ∧
      Decoded lenientZvariant replyFrame [] message := by
  have hok : (decode lenientZvariant replyFrame []).isOk = true := by decide
  obtain ⟨e, he⟩ | h := decode_total lenientZvariant (fun _ _ _ _ _ h => by cases h) replyFrame []
  · rw [he] at hok
    cases hok
  · exact h

end TensorDE.Dbus
