import TensorDE.Xwayland.Property

set_option linter.dupNamespace false

namespace TensorDE.Xwayland

open Effect Codec Replies List

variable {query : Query} {answer : Answer} {property : Property}

/-! What the worker makes of an answer. -/

/-- The server keeps nothing of the property back. -/
def Query.Whole (query : Query) (property : Property) : Prop :=
  if query.propertyType = 0 ∨ query.propertyType = property.propertyType then
    property.data.length ≤ 4 * query.length.toNat
  else property.data = []

instance (query : Query) (property : Property) : Decidable (query.Whole property) := by
  unfold Query.Whole
  infer_instance

def Query.UsableWords (query : Query) : Found → Prop
  | .failed _ => False
  | .absent => True
  | .held property => property.format = .bits32 ∧ query.Whole property

def Query.UsableText (query : Query) : Found → Prop
  | .failed _ => False
  | .absent => True
  | .held property =>
    property.format = .bits8 ∧ property.propertyType = query.propertyType ∧
      property.data.length ≤ 4 * query.length.toNat

def PropertyWords.ofData (data : Bytes) : PropertyWords :=
  .ofBody ⟨min (data.length / 4) maxPropertyWords, by omega⟩ data

def Query.words (query : Query) : Found → PropertyWords
  | .held property => if property.format = .bits32 ∧ query.Whole property then .ofData property.data else .default
  | _ => .default

def Query.text (query : Query) : Found → Option Bytes
  | .held property =>
    if property.format = .bits8 ∧ property.propertyType = query.propertyType ∧
        property.data.length ≤ 4 * query.length.toNat then
      some property.data
    else none
  | _ => none

/-! The fields of a packet. -/

section Packet

variable {kind detail : UInt8} {sequence : UInt16} {length first second third : Nat}

@[simp] theorem length_packet : (packet kind detail sequence length first second third).length = 32 := by
  simp [packet]

@[simp] theorem getD_packet_zero : (packet kind detail sequence length first second third).getD 0 0 = kind := rfl

@[simp] theorem getD_packet_one : (packet kind detail sequence length first second third).getD 1 0 = detail := rfl

variable {n : Nat}

theorem ofLe_toLe_four (h : n < 2 ^ 32) : ofLe (toLe 4 n) = n := ofLe_toLe (by omega)

theorem getU32_packet_length (h : length < 2 ^ 32) :
    getU32 (packet kind detail sequence length first second third) 4 = length := ofLe_toLe_four h

theorem getU32_packet_first (h : first < 2 ^ 32) :
    getU32 (packet kind detail sequence length first second third) 8 = first := ofLe_toLe_four h

theorem getU32_packet_second (h : second < 2 ^ 32) :
    getU32 (packet kind detail sequence length first second third) 12 = second := ofLe_toLe_four h

theorem getU32_packet_third (h : third < 2 ^ 32) :
    getU32 (packet kind detail sequence length first second third) 16 = third := ofLe_toLe_four h

theorem propertyWordCount_ok (h : n ≤ maxPropertyWords) :
    propertyWordCount (packet 1 32 sequence n first 0 n) = .ok ⟨n, by omega⟩ := by
  grind [maxPropertyWords, propertyWordCount, getD_packet_zero, getD_packet_one, getU32_packet_length,
      getU32_packet_third, getU32_packet_second]

theorem propertyWordCount_withheld (h : 0 < second) (hsecond : second < 2 ^ 32) :
    propertyWordCount (packet 1 32 sequence length first second third) =
      .error "X11 property reply exceeded the fixed query capacity" := by
  have hover : getU32 (packet 1 32 sequence length first second third) 12 ≠ 0 ∨
      getU32 (packet 1 32 sequence length first second third) 16 > maxPropertyWords := by
    rw [getU32_packet_second hsecond]
    exact .inl (by omega)
  unfold propertyWordCount
  simp only [getD_packet_zero, getD_packet_one]
  rw [if_neg (by decide), if_neg (by simp), if_pos trivial, dif_pos hover]

theorem propertyWordCount_format (hzero : detail ≠ 0) (hwide : detail ≠ 32) :
    propertyWordCount (packet 1 detail sequence length first second third) =
      .error "X11 property reply did not contain 32-bit values" := by
  grind [propertyWordCount, getD_packet_zero, getD_packet_one]

end Packet

/-! What the server gives away of a property. -/

theorem length_value_le : (query.value property).length ≤ property.data.length := by
  grind [Query.value]

theorem value_of_whole (h : query.Whole property) : query.value property = property.data := by
  grind [Query.value, Query.Whole, take_of_length_le]

theorem length_of_whole (h : query.Whole property) : property.data.length ≤ 4 * query.length.toNat := by
  grind [Query.Whole]

theorem length_value_lt (h : ¬query.Whole property) : (query.value property).length < property.data.length := by
  grind [Query.value, Query.Whole, length_pos_of_ne_nil]

theorem ofData_nil : PropertyWords.ofData [] = .default := by
  decide

theorem takes_body {data : Bytes} (hfour : 4 ∣ data.length) (hmax : data.length / 4 ≤ maxPropertyWords) :
    Takes (if (⟨data.length / 4, by omega⟩ : Fin (maxPropertyWords + 1)) = 0 then pure PropertyWords.default else do
        let body ← readExact unexpectedEof (data.length / 4 * 4)
        pure (.ofBody ⟨data.length / 4, by omega⟩ body)) data True (.ofData data) := by
  have hfour' : data.length / 4 * 4 = data.length := Nat.div_mul_cancel hfour
  have hofData : PropertyWords.ofData data = .ofBody ⟨data.length / 4, by omega⟩ data := by
    simp only [PropertyWords.ofData, Nat.min_eq_left hmax]
  by_cases hempty : data = []
  · grind [ofData_nil, Takes.pure]
  · have hpos := length_pos_of_ne_nil hempty
    rw [if_neg (fun h => by
      grind), hofData]
    exact (takes_readExact unexpectedEof hfour'.symm).map _

theorem takes_readWords (query : Query) (answer : Answer) (hlen : query.length.toNat ≤ maxPropertyWords) :
    Takes readWords (answer.bytes query) (query.UsableWords answer.found) (query.words answer.found) := by
  unfold Answer.bytes
  cases answer.found with
  | failed code =>
    dsimp only
    rw [← append_nil (packet _ _ _ _ _ _ _)]
    exact Takes.block length_packet (Takes.fail _ id)
  | absent =>
    dsimp only
    rw [← append_nil (packet _ _ _ _ _ _ _)]
    exact Takes.block length_packet (Takes.pure _)
  | held property =>
    apply Takes.block length_packet
    by_cases hformat : property.format = .bits32
    · have hfour : 4 ∣ property.data.length := by
        have hwhole := property.whole
        rwa [hformat] at hwhole
      by_cases hwhole : query.Whole property
      · have hle := length_of_whole hwhole
        have hmax : property.data.length / 4 ≤ maxPropertyWords := by omega
        have hpad : (property.data.length + 3) / 4 = property.data.length / 4 := by omega
        have hexact : property.data.length / 4 * 4 - property.data.length = 0 := by omega
        have hvalue : query.words (.held property) = .ofData property.data := if_pos ⟨hformat, hwhole⟩
        rw [value_of_whole hwhole, hformat, Nat.sub_self, hpad, hexact, replicate_zero, append_nil, hvalue]
        exact Takes.except_ok (propertyWordCount_ok hmax)
          ((takes_body hfour hmax).congr ⟨fun _ => trivial, fun _ => ⟨hformat, hwhole⟩⟩)
      · have hlt := length_value_lt hwhole
        have hsmall := property.small
        rw [hformat]
        exact Takes.except_error (propertyWordCount_withheld (by omega) (by omega)) fun h => hwhole h.2
    · have hcode : property.format.bits ≠ 0 ∧ property.format.bits ≠ 32 := by
        cases hbits : property.format with
        | bits8 | bits16 => decide
        | bits32 => exact absurd hbits hformat
      exact Takes.except_error (propertyWordCount_format hcode.1 hcode.2) fun h => hformat h.1

theorem value_of_text (htype : property.propertyType = query.propertyType)
    (hle : property.data.length ≤ 4 * query.length.toNat) : query.value property = property.data := by
  rw [Query.value, if_pos (.inr htype.symm), take_of_length_le hle]

theorem takes_readBytes (query : Query) (answer : Answer) (hlen : 4 * query.length.toNat ≤ maxTextBytes) :
    Takes (readBytes query.propertyType) (answer.bytes query) (query.UsableText answer.found)
      (query.text answer.found) := by
  unfold Answer.bytes
  cases answer.found with
  | failed code =>
    dsimp only
    rw [← append_nil (packet _ _ _ _ _ _ _)]
    exact Takes.block length_packet (Takes.fail _ id)
  | absent =>
    rw [← append_nil (packet _ _ _ _ _ _ _)]
    exact Takes.block length_packet (Takes.pure _)
  | held property =>
    apply Takes.block length_packet
    have hsmall := property.small
    have hle := @length_value_le query property
    have htype : property.propertyType.toNat < 2 ^ 32 := property.propertyType.toNat_lt
    have hunit : (query.value property).length / property.format.unit ≤ (query.value property).length :=
      Nat.div_le_self _ _
    have hbits : property.format.bits ≠ 0 := by cases property.format <;> decide
    simp only [getD_packet_zero, getD_packet_one, ne_eq, not_true, if_false, hbits, false_and,
      getU32_packet_first htype, getU32_packet_second (show property.data.length - (query.value property).length < 2 ^ 32 by omega),
      getU32_packet_third (show (query.value property).length / property.format.unit < 2 ^ 32 by omega),
      getU32_packet_length (show ((query.value property).length + 3) / 4 < 2 ^ 32 by omega)]
    by_cases husable : query.UsableText (.held property)
    · obtain ⟨hformat, hexpected, hfits⟩ := husable
      have hvalue := value_of_text hexpected hfits
      have htext : query.text (.held property) = some property.data := if_pos ⟨hformat, hexpected, hfits⟩
      have hbounded : ¬(¬Format.bits .bits8 = 8 ∨ ¬query.propertyType.toNat = query.propertyType.toNat ∨
          ¬property.data.length - property.data.length = 0 ∨ property.data.length / 1 > maxTextBytes ∨
          ¬(property.data.length + 3) / 4 * 4 = (property.data.length / 1 + 3) / 4 * 4) := by
        rw [Nat.div_one]
        rintro (h | h | h | h | h)
        · exact h rfl
        · exact h rfl
        · exact h (Nat.sub_self _)
        · omega
        · exact h rfl
      rw [hvalue, hformat, hexpected, htext, Format.unit, if_neg hbounded, Nat.div_one]
      by_cases hempty : property.data = []
      · rw [hempty]
        exact (Takes.pure _).congr ⟨fun _ => trivial, fun _ => ⟨hformat, hexpected, hfits⟩⟩
      · have hpos := length_pos_of_ne_nil hempty
        rw [if_neg (by omega)]
        have hbody : (property.data ++ replicate ((property.data.length + 3) / 4 * 4 - property.data.length) 0).length =
            (property.data.length + 3) / 4 * 4 := by
          rw [length_append, length_replicate]
          omega
        have htake := (takes_readExact unexpectedEof hbody).map fun body => some (body.take property.data.length)
        rw [take_left] at htake
        exact htake.congr ⟨fun _ => trivial, fun _ => ⟨hformat, hexpected, hfits⟩⟩
    · rw [if_pos]
      · exact Takes.fail _ husable
      · by_contra hnot
        simp only [not_or, not_not] at hnot
        obtain ⟨hformat, hexpected, hwithheld, -, -⟩ := hnot
        refine husable ⟨?_, UInt32.toNat_inj.mp hexpected, ?_⟩
        · cases hheld : property.format with
          | bits8 => rfl
          | bits16 | bits32 =>
            rw [hheld] at hformat
            cases hformat
        grind [Query.value]

/-! The queries of a request, in the order they are sent. -/

def transientForQuery (window : UInt32) : Query := ⟨window, AtomEnum.WM_TRANSIENT_FOR, AtomEnum.WINDOW, 1⟩

def normalHintsQuery (window : UInt32) : Query := ⟨window, AtomEnum.WM_NORMAL_HINTS, AtomEnum.WM_SIZE_HINTS, 18⟩

def netStateQuery (window netWmState : UInt32) : Query := ⟨window, netWmState, AtomEnum.ATOM, 32⟩

def wmHintsQuery (window : UInt32) : Query := ⟨window, AtomEnum.WM_HINTS, AtomEnum.WM_HINTS, 9⟩

def protocolsQuery (window wmProtocols : UInt32) : Query := ⟨window, wmProtocols, AtomEnum.ATOM, 32⟩

def netNameQuery (window netWmName utf8String : UInt32) : Query := ⟨window, netWmName, utf8String, 1024⟩

def nameQuery (window : UInt32) : Query := ⟨window, AtomEnum.WM_NAME, AtomEnum.STRING, 1024⟩

def classQuery (window : UInt32) : Query := ⟨window, AtomEnum.WM_CLASS, AtomEnum.STRING, 1024⟩

namespace X11PropertyRequest

def window (request : X11PropertyRequest) : UInt32 := request.target.window

def queries : X11PropertyRequest → List Query
  | initial target netWmState wmProtocols netWmName utf8String =>
    [transientForQuery target.window, normalHintsQuery target.window, netStateQuery target.window netWmState,
      wmHintsQuery target.window, protocolsQuery target.window wmProtocols,
      netNameQuery target.window netWmName utf8String, nameQuery target.window, classQuery target.window]
  | transientFor target => [transientForQuery target.window]
  | normalHints target => [normalHintsQuery target.window]
  | netState target netWmState => [netStateQuery target.window netWmState]
  | wmHints target => [wmHintsQuery target.window]
  | protocols target wmProtocols => [protocolsQuery target.window wmProtocols]
  | title target netWmName utf8String => [netNameQuery target.window netWmName utf8String, nameQuery target.window]
  | wmClass target => [classQuery target.window]

def Answered (answers : Nat → Answer) : X11PropertyRequest → Prop
  | initial target netWmState wmProtocols netWmName utf8String =>
    (transientForQuery target.window).UsableWords (answers 0).found ∧
    (normalHintsQuery target.window).UsableWords (answers 1).found ∧
    (netStateQuery target.window netWmState).UsableWords (answers 2).found ∧
    (wmHintsQuery target.window).UsableWords (answers 3).found ∧
    (protocolsQuery target.window wmProtocols).UsableWords (answers 4).found ∧
    (netNameQuery target.window netWmName utf8String).UsableText (answers 5).found ∧
    (nameQuery target.window).UsableText (answers 6).found ∧
    (classQuery target.window).UsableText (answers 7).found
  | transientFor target => (transientForQuery target.window).UsableWords (answers 0).found
  | normalHints target => (normalHintsQuery target.window).UsableWords (answers 0).found
  | netState target netWmState => (netStateQuery target.window netWmState).UsableWords (answers 0).found
  | wmHints target => (wmHintsQuery target.window).UsableWords (answers 0).found
  | protocols target wmProtocols => (protocolsQuery target.window wmProtocols).UsableWords (answers 0).found
  | title target netWmName utf8String =>
    (netNameQuery target.window netWmName utf8String).UsableText (answers 0).found ∧
    (nameQuery target.window).UsableText (answers 1).found
  | wmClass target => (classQuery target.window).UsableText (answers 0).found

end X11PropertyRequest

/-- The title two name properties give: the UTF-8 one before the legacy one. -/
def titleOf (netName name : Option Bytes) : String :=
  ((netName.bind (decodeString .utf8)).or (name.bind (decodeString .latin1))).getD ""

def appIdOf (cls : Option Bytes) : String := (cls.bind decodeWmClass).getD ""

/-- The result of a request, with default values where an answer is unusable. -/
def X11PropertyRequest.result (answers : Nat → Answer) (request : X11PropertyRequest) : X11PropertyResult :=
  ⟨request.target, match request with
    | initial target netWmState wmProtocols netWmName utf8String => .initial
      { transientFor := parseTransient ((transientForQuery target.window).words (answers 0).found)
        sizeHints := parseSizeHints ((normalHintsQuery target.window).words (answers 1).found)
        netState := .fromWords ((netStateQuery target.window netWmState).words (answers 2).found)
        wmHints := parseWmHints ((wmHintsQuery target.window).words (answers 3).found)
        protocols := .fromWords ((protocolsQuery target.window wmProtocols).words (answers 4).found)
        metadata := ⟨titleOf ((netNameQuery target.window netWmName utf8String).text (answers 5).found)
          ((nameQuery target.window).text (answers 6).found), appIdOf ((classQuery target.window).text (answers 7).found)⟩ }
    | transientFor target => .transientFor (parseTransient ((transientForQuery target.window).words (answers 0).found))
    | normalHints target => .normalHints (parseSizeHints ((normalHintsQuery target.window).words (answers 0).found))
    | netState target netWmState => .netState (.fromWords ((netStateQuery target.window netWmState).words (answers 0).found))
    | wmHints target => .wmHints (parseWmHints ((wmHintsQuery target.window).words (answers 0).found))
    | protocols target wmProtocols =>
      .protocols (.fromWords ((protocolsQuery target.window wmProtocols).words (answers 0).found))
    | title target netWmName utf8String =>
      .title (titleOf ((netNameQuery target.window netWmName utf8String).text (answers 0).found)
        ((nameQuery target.window).text (answers 1).found))
    | wmClass target => .wmClass (appIdOf ((classQuery target.window).text (answers 0).found))⟩

/-! The server understands what is written. -/

theorem ofNat_ofLe {value : UInt32} : UInt32.ofNat (ofLe (toLe 4 value.toNat)) = value := by
  rw [ofLe_toLe_four value.toNat_lt, UInt32.ofNat_toNat]

theorem ofBytes_bytes (query : Query) : Query.ofBytes query.bytes = query := by
  obtain ⟨window, property, propertyType, length⟩ := query
  change (⟨.ofNat (ofLe (toLe 4 window.toNat)), .ofNat (ofLe (toLe 4 property.toNat)),
    .ofNat (ofLe (toLe 4 propertyType.toNat)), .ofNat (ofLe (toLe 4 length.toNat))⟩ : Query) = _
  simp only [ofNat_ofLe]

@[simp] theorem length_bytes (query : Query) : query.bytes.length = 24 := by
  simp [Query.bytes, getPropertyRequest, putU32]

theorem queriesOf_bytes (queries : List Query) :
    queriesOf ((queries.flatMap Query.bytes).length / 24) (queries.flatMap Query.bytes) = queries := by
  have hcount : (queries.flatMap Query.bytes).length / 24 = queries.length := by
    induction queries with
    | nil => rfl
    | cons query queries ih =>
      rw [flatMap_cons, length_append, length_bytes, length_cons]
      omega
  induction queries with
  | nil => rfl
  | cons query queries ih => grind [length_bytes, queriesOf, ofBytes_bytes]

/-! One request. -/

/-- The request ends with its own answers read and nothing else, or with an error. -/
structure Settles {α : Type} (r : EStateM.Result (Fault String) Bytes α) (usable : Prop) (a : α) : Prop where
  ok : usable → r = .ok a []
  error : ¬usable → ∃ e unread, r = .error (.error e) unread

variable (answers : Nat → Answer)

@[simp] theorem replies_nil : replies answers [] = [] := rfl

@[simp] theorem replies_cons (query : Query) (queries : List Query) : replies answers (query :: queries) =
      (answers 0).bytes query ++ replies (fun index => answers (index + 1)) queries := by
  rw [replies, replies, zipIdx_cons', flatMap_cons, flatMap_map]
  rfl

variable {answers : Nat → Answer}

theorem settles_of_takes {α : Type} {m : Op Bytes String α} (queries : List Query) {written : Bytes}
    {usable : Prop} {a : α} (hwritten : written = queries.flatMap Query.bytes)
    (h : Takes m (replies answers queries) usable a) : Settles ((writeAll answers written >>= fun _ => m) []) usable a := by
  have hstart : (writeAll answers written >>= fun _ => m) [] = m (replies answers queries ++ []) := by
    rw [bind_run, writeAll, modify_run, hwritten, queriesOf_bytes, append_nil]
    rfl
  rw [hstart]
  exact ⟨fun hu => h.ok hu [], fun hu => h.error hu []⟩

theorem takes_readString (query : Query) (answer : Answer) (encoding : TextEncoding) (hlen : 4 * query.length.toNat ≤ maxTextBytes) :
    Takes (readString query.propertyType encoding) (answer.bytes query) (query.UsableText answer.found)
      ((query.text answer.found).bind (decodeString encoding)) :=
  (takes_readBytes query answer hlen).map fun bytes => bytes.bind (decodeString encoding)

theorem takes_readTitle (window netWmName utf8String : UInt32) (netName name : Answer) :
    Takes (readTitle utf8String AtomEnum.STRING)
      (netName.bytes (netNameQuery window netWmName utf8String) ++ name.bytes (nameQuery window))
      ((netNameQuery window netWmName utf8String).UsableText netName.found ∧ (nameQuery window).UsableText name.found)
      (titleOf ((netNameQuery window netWmName utf8String).text netName.found) ((nameQuery window).text name.found)) := by
  have hnet := takes_readString (netNameQuery window netWmName utf8String) netName .utf8 (le_refl 4096)
  have hname := takes_readString (nameQuery window) name .latin1 (le_refl 4096)
  exact hnet.bind (hname.map _)

theorem takes_readClass (window : UInt32) (cls : Answer) :
    Takes (readClass AtomEnum.STRING) (cls.bytes (classQuery window)) ((classQuery window).UsableText cls.found)
      (appIdOf ((classQuery window).text cls.found)) :=
  (takes_readBytes (classQuery window) cls (le_refl 4096)).map appIdOf

theorem takes_readInitialMetadata (window netWmName utf8String : UInt32) (netName name cls : Answer) :
    Takes (readInitialMetadata utf8String AtomEnum.STRING) (netName.bytes (netNameQuery window netWmName utf8String) ++
        (name.bytes (nameQuery window) ++ cls.bytes (classQuery window)))
      ((netNameQuery window netWmName utf8String).UsableText netName.found ∧
        (nameQuery window).UsableText name.found ∧ (classQuery window).UsableText cls.found)
      ⟨titleOf ((netNameQuery window netWmName utf8String).text netName.found) ((nameQuery window).text name.found),
        appIdOf ((classQuery window).text cls.found)⟩ := by
  have hnet := takes_readString (netNameQuery window netWmName utf8String) netName .utf8 (le_refl 4096)
  have hname := takes_readString (nameQuery window) name .latin1 (le_refl 4096)
  have hclass := takes_readBytes (classQuery window) cls (le_refl 4096)
  exact hnet.bind (hname.bind (hclass.map _))

theorem settles_queryOne {target : X11PropertyTarget} {property propertyType length : UInt32}
    (map : PropertyWords → X11PropertyUpdate) (hlen : length.toNat ≤ maxPropertyWords) :
    Settles (queryOne answers target property propertyType length map [])
      ((⟨target.window, property, propertyType, length⟩ : Query).UsableWords (answers 0).found)
      ⟨target, map ((⟨target.window, property, propertyType, length⟩ : Query).words (answers 0).found)⟩ := by
  apply settles_of_takes [⟨target.window, property, propertyType, length⟩] (append_nil _).symm
  have hread := takes_readWords ⟨target.window, property, propertyType, length⟩ (answers 0) hlen
  rw [replies_cons, replies_nil, append_nil]
  exact hread.map fun words => (⟨target, map words⟩ : X11PropertyResult)

theorem settles_execute (answers : Nat → Answer) (request : X11PropertyRequest) :
    Settles (execute answers request []) (request.Answered answers) (request.result answers) := by
  cases request with
  | initial target netWmState wmProtocols netWmName utf8String =>
    apply settles_of_takes (X11PropertyRequest.initial target netWmState wmProtocols netWmName utf8String).queries rfl
    simp only [X11PropertyRequest.queries, replies_cons, replies_nil, append_nil]
    have htransient := takes_readWords (transientForQuery target.window) (answers 0) (show 1 ≤ 32 by decide)
    have hhints := takes_readWords (normalHintsQuery target.window) (answers 1) (show 18 ≤ 32 by decide)
    have hstate := takes_readWords (netStateQuery target.window netWmState) (answers 2) (le_refl 32)
    have hwm := takes_readWords (wmHintsQuery target.window) (answers 3) (show 9 ≤ 32 by decide)
    have hprotocols := takes_readWords (protocolsQuery target.window wmProtocols) (answers 4) (le_refl 32)
    have hmetadata := takes_readInitialMetadata target.window netWmName utf8String (answers 5) (answers 6) (answers 7)
    exact htransient.bind (hhints.bind (hstate.bind (hwm.bind (hprotocols.bind (hmetadata.map _)))))
  | transientFor target => exact settles_queryOne _ (by decide)
  | normalHints target => exact settles_queryOne _ (by decide)
  | netState target netWmState => exact settles_queryOne _ (by decide)
  | wmHints target => exact settles_queryOne _ (by decide)
  | protocols target wmProtocols => exact settles_queryOne _ (by decide)
  | title target netWmName utf8String =>
    apply settles_of_takes (X11PropertyRequest.title target netWmName utf8String).queries rfl
    simp only [X11PropertyRequest.queries, replies_cons, replies_nil, append_nil]
    exact (takes_readTitle target.window netWmName utf8String (answers 0) (answers 1)).map _
  | wmClass target =>
    apply settles_of_takes (X11PropertyRequest.wmClass target).queries (append_nil _).symm
    simp only [X11PropertyRequest.queries, replies_cons, replies_nil, append_nil]
    exact (takes_readClass target.window (answers 0)).map _

/-! The worker's run. -/

namespace Exchange

/-- Everything the request needs went well. -/
def Served (x : Exchange) : Prop := x.request.Answered x.answers ∧ x.accepted

def result (x : Exchange) : X11PropertyResult := x.request.result x.answers

end Exchange

variable {results : List X11PropertyResult} {x : Exchange} {xs : List Exchange}

theorem step_served (h : x.Served) : Worker.step ⟨[], results, none⟩ x = ⟨[], results ++ [x.result], none⟩ := by
  simp only [Worker.step, (settles_execute x.answers x.request).ok h.1, if_pos h.2]
  rfl

theorem step_refused (results : List X11PropertyResult) (h : ¬x.Served) :
    (Worker.step ⟨[], results, none⟩ x).failure ≠ none ∧ (Worker.step ⟨[], results, none⟩ x).results = results := by
  by_cases hanswered : x.request.Answered x.answers
  · grind [Worker.step, Exchange.Served]
  grind +splitImp +splitIndPred [settles_execute, Worker.step]

variable {worker : Worker}

theorem step_stopped (h : worker.failure ≠ none) : worker.step x = worker := by
  grind [Worker.step]

theorem foldl_stopped (h : worker.failure ≠ none) : xs.foldl Worker.step worker = worker := by
  induction xs with
  | nil => rfl
  | cons x xs ih => rw [foldl_cons, step_stopped h, ih]

/-- The worker's run up to its end, or up to the first request that goes wrong. -/
theorem foldl_step (xs : List Exchange) (results : List X11PropertyResult) :
    ((∀ x ∈ xs, x.Served) ∧ xs.foldl Worker.step ⟨[], results, none⟩ = ⟨[], results ++ xs.map Exchange.result, none⟩) ∨
      ∃ served x rest, xs = served ++ x :: rest ∧ (∀ x ∈ served, x.Served) ∧ ¬x.Served ∧
        (xs.foldl Worker.step ⟨[], results, none⟩).failure ≠ none ∧
        (xs.foldl Worker.step ⟨[], results, none⟩).results = results ++ served.map Exchange.result := by
  induction xs generalizing results with
  | nil => grind
  | cons x xs ih =>
    by_cases hx : x.Served
    · rw [foldl_cons, step_served hx]
      obtain ⟨hall, hrun⟩ | ⟨served, y, rest, rfl, hserved, hy, hfailure, hresults⟩ := ih (results ++ [x.result])
      · grind
      · refine .inr ⟨x :: served, y, rest, rfl, forall_mem_cons.mpr ⟨hx, hserved⟩, hy, hfailure, ?_⟩
        grind
    · obtain ⟨hfailure, hresults⟩ := step_refused results hx
      refine .inr ⟨[], x, xs, rfl, fun _ h => absurd h not_mem_nil, hx, ?_⟩
      grind [foldl_stopped]

theorem run_served (h : ∀ x ∈ xs, x.Served) : Worker.run xs = ⟨[], xs.map Exchange.result, none⟩ := by
  obtain ⟨-, hrun⟩ | ⟨served, x, rest, rfl, -, hx, -⟩ := foldl_step xs []
  · exact hrun
  · exact absurd (h x (by simp)) hx

theorem served_of_run (h : (Worker.run xs).failure = none) : ∀ x ∈ xs, x.Served := by
  grind [foldl_step, Worker.run]

/-- The worker has read all answers to the requests so far and gives one result
for each of them; what it gives for the other windows does not depend on one. -/
structure Serves (xs : List Exchange) : Prop where
  each : ∀ count, Worker.run (xs.take count) = ⟨[], (xs.take count).map Exchange.result, none⟩
  apart : ∀ window, (Worker.run xs).results.filter (·.target.window ≠ window) =
    (Worker.run (xs.filter (·.request.window ≠ window))).results

/-- One client's window is enough to stop the worker: it serves its requests
exactly when it can use every answer to every one of them. -/
theorem worker_serves (xs : List Exchange) : Serves xs ↔ ∀ x ∈ xs, x.Served := by
  refine ⟨fun h => served_of_run ?_, fun h => ⟨fun count => run_served fun x hx => h x (mem_of_mem_take hx), ?_⟩⟩
  · have hrun := h.each xs.length
    rw [take_length] at hrun
    rw [hrun]
  · intro window
    rw [run_served h, run_served fun x hx => h x (mem_of_mem_filter hx), filter_map]
    rfl

/-- The window is gone before the query arrives: `BadWindow`. -/
def destroyedWindow : Exchange := ⟨.transientFor ⟨0x400005, 1⟩, fun _ => ⟨1, .failed 3⟩, true⟩

def otherWindow : Exchange := ⟨.wmClass ⟨0x600002, 1⟩, fun _ => ⟨2, .absent⟩, true⟩

theorem destroyed_window_stops_worker :
    (Worker.run [destroyedWindow, otherWindow]).failure = some "X11 property request failed with error code 3" ∧
      (Worker.run [destroyedWindow, otherWindow]).results = [] ∧ (Worker.run [otherWindow]).results ≠ [] ∧
      ¬Serves [destroyedWindow, otherWindow] := by
  have hrun : Worker.run [destroyedWindow, otherWindow] =
      ⟨[], [], some "X11 property request failed with error code 3"⟩ := by rfl
  refine ⟨by rw [hrun], by rw [hrun], ?_, fun h => ?_⟩
  · rw [run_served fun x hx => by
      rw [mem_singleton.mp hx]
      exact ⟨trivial, rfl⟩]
    exact cons_ne_nil _ _
  · have hall := h.each 2
    grind

end TensorDE.Xwayland
