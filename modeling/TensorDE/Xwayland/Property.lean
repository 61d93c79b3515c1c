import TensorDE.Lib.Codec
import TensorDE.Lib.Replies

set_option linter.dupNamespace false

namespace TensorDE.Xwayland

open Effect Codec Replies

def maxPropertyWords : Nat := 32

def maxTextBytes : Nat := 4096

namespace AtomEnum

def ATOM : UInt32 := 4

def STRING : UInt32 := 31

def WINDOW : UInt32 := 33

def WM_HINTS : UInt32 := 35

def WM_NAME : UInt32 := 39

def WM_NORMAL_HINTS : UInt32 := 40

def WM_SIZE_HINTS : UInt32 := 41

def WM_CLASS : UInt32 := 67

def WM_TRANSIENT_FOR : UInt32 := 68

end AtomEnum

structure X11PropertyTarget where
  window : UInt32
  generation : UInt64
deriving DecidableEq

inductive X11PropertyRequest where
  | initial (target : X11PropertyTarget) (netWmState wmProtocols netWmName utf8String : UInt32)
  | transientFor (target : X11PropertyTarget)
  | normalHints (target : X11PropertyTarget)
  | netState (target : X11PropertyTarget) (netWmState : UInt32)
  | wmHints (target : X11PropertyTarget)
  | protocols (target : X11PropertyTarget) (wmProtocols : UInt32)
  | title (target : X11PropertyTarget) (netWmName utf8String : UInt32)
  | wmClass (target : X11PropertyTarget)

def X11PropertyRequest.target : X11PropertyRequest → X11PropertyTarget
  | initial target _ _ _ _ => target
  | transientFor target => target
  | normalHints target => target
  | netState target _ => target
  | wmHints target => target
  | protocols target _ => target
  | title target _ _ => target
  | wmClass target => target

/-- The fixed array of a reply and how much of it the reply filled. -/
structure PropertyWords where
  values : Vector UInt32 maxPropertyWords
  len : Fin (maxPropertyWords + 1)
deriving DecidableEq

def PropertyWords.default : PropertyWords := ⟨Vector.replicate maxPropertyWords 0, 0⟩

structure LogicalSize where
  (w h : Int32)
deriving DecidableEq

structure X11SizeHints where
  minSize : Option LogicalSize
  maxSize : Option LogicalSize
deriving DecidableEq

def X11SizeHints.default : X11SizeHints := ⟨none, none⟩

structure X11WmHints where
  acceptsInput : Bool
deriving DecidableEq

/-- The input hint counts as true when the hint is absent. -/
def X11WmHints.default : X11WmHints := ⟨true⟩

structure X11AtomList where
  values : Vector UInt32 maxPropertyWords
  len : Fin (maxPropertyWords + 1)
deriving DecidableEq

variable (words : PropertyWords)

def X11AtomList.fromWords : X11AtomList := ⟨words.values, words.len⟩

structure X11WindowMetadata where
  title : String
  appId : String
deriving DecidableEq

structure X11InitialProperties where
  transientFor : Option UInt32
  sizeHints : X11SizeHints
  netState : X11AtomList
  wmHints : X11WmHints
  protocols : X11AtomList
  metadata : X11WindowMetadata
deriving DecidableEq

inductive X11PropertyUpdate where
  | initial (properties : X11InitialProperties)
  | transientFor (parent : Option UInt32)
  | normalHints (hints : X11SizeHints)
  | netState (atoms : X11AtomList)
  | wmHints (hints : X11WmHints)
  | protocols (atoms : X11AtomList)
  | title (title : String)
  | wmClass (appId : String)
deriving DecidableEq

structure X11PropertyResult where
  target : X11PropertyTarget
  update : X11PropertyUpdate
deriving DecidableEq

def X11_GET_PROPERTY : UInt8 := 20

/-- `get_u32` of the four bytes from `start`; both ends of the connection are little-endian. -/
def getU32 (bytes : Bytes) (start : Nat) : Nat := ofLe ((bytes.drop start).take 4)

def putU32 (value : UInt32) : Bytes := toLe 4 value.toNat

def getPropertyRequest (window property propertyType length : UInt32) : Bytes :=
  [X11_GET_PROPERTY, 0] ++ toLe 2 6 ++ putU32 window ++ putU32 property ++ putU32 propertyType ++ putU32 0 ++ putU32 length

/-! The X server's side of a `GetProperty` request. -/

structure Query where
  (window property propertyType length : UInt32)
deriving DecidableEq

variable (query : Query)

def Query.bytes : Bytes :=
  getPropertyRequest query.window query.property query.propertyType query.length

def Query.ofBytes (bytes : Bytes) : Query :=
  ⟨.ofNat (getU32 bytes 4), .ofNat (getU32 bytes 8), .ofNat (getU32 bytes 12), .ofNat (getU32 bytes 20)⟩

def queriesOf : Nat → Bytes → List Query
  | 0, _ => []
  | count + 1, written => Query.ofBytes (written.take 24) :: queriesOf count (written.drop 24)

inductive Format where
  | bits8
  | bits16
  | bits32
deriving DecidableEq

namespace Format

def bits : Format → UInt8
  | bits8 => 8
  | bits16 => 16
  | bits32 => 32

def unit : Format → Nat
  | bits8 => 1
  | bits16 => 2
  | bits32 => 4

end Format

/-- A property as some client stored it on the window. -/
structure Property where
  propertyType : UInt32
  format : Format
  data : Bytes
  whole : format.unit ∣ data.length
  small : data.length < 2 ^ 32

inductive Found where
  | failed (code : UInt8)
  | absent
  | held (property : Property)

structure Answer where
  sequence : UInt16
  found : Found

/-- Type zero asks for any type; a property of another type is reported without its value. -/
def Query.value (property : Property) : Bytes :=
  if query.propertyType = 0 ∨ query.propertyType = property.propertyType then
    property.data.take (4 * query.length.toNat)
  else []

def packet (kind detail : UInt8) (sequence : UInt16) (length first second third : Nat) : Bytes :=
  [kind, detail] ++ toLe 2 sequence.toNat ++ toLe 4 length ++ toLe 4 first ++ toLe 4 second ++ toLe 4 third ++
    List.replicate 12 0

def Answer.bytes (answer : Answer) (query : Query) : Bytes :=
  match answer.found with
  | .failed code => packet 0 code answer.sequence query.window.toNat (X11_GET_PROPERTY.toNat * 65536) 0 0
  | .absent => packet 1 0 answer.sequence 0 0 0 0
  | .held property =>
    packet 1 property.format.bits answer.sequence (((query.value property).length + 3) / 4)
      property.propertyType.toNat (property.data.length - (query.value property).length)
      ((query.value property).length / property.format.unit) ++
    (query.value property ++ List.replicate (((query.value property).length + 3) / 4 * 4 - (query.value property).length) 0)

variable (answers : Nat → Answer)

/-- What the server sends back for the requests it is sent, in their order. -/
def replies (queries : List Query) : Bytes :=
  queries.zipIdx.flatMap fun q => (answers q.2).bytes q.1

/-! The worker's side. -/

def writeAll (written : Bytes) : Op Bytes String Unit :=
  modify fun unread => unread ++ replies answers (queriesOf (written.length / 24) written)

def unexpectedEof : String := "failed to fill whole buffer"

/-- The lengths are 32-bit fields, so none of the source's `usize` checks fails. -/
def propertyWordCount (header : Bytes) : Except String (Fin (maxPropertyWords + 1)) :=
  let code := header.getD 1 0
  let bodyLen := getU32 header 4 * 4
  let bytesAfter := getU32 header 12
  let valueLen := getU32 header 16
  if header.getD 0 0 ≠ 1 then .error s!"X11 property request failed with error code {code}"
  else if code = 0 ∧ bodyLen = 0 ∧ valueLen = 0 ∧ bytesAfter = 0 then .ok 0
  else if code = 32 then
    if h : bytesAfter ≠ 0 ∨ valueLen > maxPropertyWords then
      .error "X11 property reply exceeded the fixed query capacity"
    else if bodyLen ≠ valueLen * 4 then .error "X11 property reply length did not match its value count"
    else .ok ⟨valueLen, by omega⟩
  else .error "X11 property reply did not contain 32-bit values"

def PropertyWords.ofBody (len : Fin (maxPropertyWords + 1)) (body : Bytes) : PropertyWords :=
  ⟨Vector.ofFn fun index => if index.val < len.val then .ofNat (getU32 body (4 * index)) else 0, len⟩

def readWords : Op Bytes String PropertyWords := do
  let header ← readExact unexpectedEof 32
  let valueLen ← ofExcept (propertyWordCount header)
  if valueLen = 0 then pure .default
  else do
    let body ← readExact unexpectedEof (valueLen.val * 4)
    pure (.ofBody valueLen body)

def parseTransient : Option UInt32 :=
  if words.len > 0 then some words.values[0] else none

def parseSizeHints : X11SizeHints :=
  if words.len < 9 then .default
  else
    let flags := words.values[0]
    ⟨if flags &&& ((1 : UInt32) <<< 4) ≠ 0 then some ⟨words.values[5].toInt32, words.values[6].toInt32⟩ else none,
      if flags &&& ((1 : UInt32) <<< 5) ≠ 0 then some ⟨words.values[7].toInt32, words.values[8].toInt32⟩ else none⟩

def parseWmHints : X11WmHints :=
  if words.len < 2 ∨ words.values[0] &&& 1 = 0 then .default else ⟨words.values[1] ≠ 0⟩

inductive TextEncoding where
  | utf8
  | latin1

def decodeLatin1 (bytes : Bytes) : String := .ofList (bytes.map fun byte => Char.ofNat byte.toNat)

def decodeWmClass (bytes : Bytes) : Option String :=
  let fields := bytes.splitOn 0
  let inst := fields.getD 0 []
  let cls := fields.getD 1 []
  let selected := if cls.isEmpty then inst else cls
  if selected.isEmpty then none else some (decodeLatin1 selected)

variable (expectedType : UInt32)

def readBytes : Op Bytes String (Option Bytes) := do
  let header ← readExact unexpectedEof 32
  let code := header.getD 1 0
  if header.getD 0 0 ≠ 1 then fail s!"X11 text property request failed with error code {code}"
  else
    let format := code
    let propertyType := getU32 header 8
    let bytesAfter := getU32 header 12
    let valueLen := getU32 header 16
    let bodyLen := getU32 header 4 * 4
    if format = 0 ∧ propertyType = 0 ∧ valueLen = 0 ∧ bodyLen = 0 ∧ bytesAfter = 0 then pure none
    else if format ≠ 8 ∨ propertyType ≠ expectedType.toNat ∨ bytesAfter ≠ 0 ∨ valueLen > maxTextBytes ∨
        bodyLen ≠ (valueLen + 3) / 4 * 4 then
      fail "X11 text property exceeded its bounded 8-bit contract"
    else if bodyLen = 0 then pure (some [])
    else do
      let body ← readExact unexpectedEof bodyLen
      pure (some (body.take valueLen))

/-- The bytes up to the first zero, as text. -/
def decodeString (encoding : TextEncoding) (bytes : Bytes) : Option String :=
  let bytes := (bytes.splitOn 0).getD 0 []
  match encoding with
  | .utf8 => String.fromUTF8? (ByteArray.mk bytes.toArray)
  | .latin1 => some (decodeLatin1 bytes)

def readString (encoding : TextEncoding) : Op Bytes String (Option String) := do
  let bytes ← readBytes expectedType
  pure (bytes.bind (decodeString encoding))

def readInitialMetadata (utf8String string : UInt32) : Op Bytes String X11WindowMetadata := do
  let netTitle ← readString utf8String .utf8
  let legacyTitle ← readString string .latin1
  let cls ← readBytes string
  pure ⟨(netTitle.or legacyTitle).getD "", (cls.bind decodeWmClass).getD ""⟩

def readTitle (utf8String string : UInt32) : Op Bytes String String := do
  let netTitle ← readString utf8String .utf8
  let legacyTitle ← readString string .latin1
  pure ((netTitle.or legacyTitle).getD "")

def readClass (string : UInt32) : Op Bytes String String := do
  let bytes ← readBytes string
  pure ((bytes.bind decodeWmClass).getD "")

def queryOne (target : X11PropertyTarget) (property propertyType length : UInt32)
    (map : PropertyWords → X11PropertyUpdate) : Op Bytes String X11PropertyResult := do
  writeAll answers (getPropertyRequest target.window property propertyType length)
  let words ← readWords
  pure ⟨target, map words⟩

/-- One request on the connection, the server giving `answers` to the queries it sends. -/
def execute : X11PropertyRequest → Op Bytes String X11PropertyResult
  | .initial target netWmState wmProtocols netWmName utf8String => do
    let requests :=
      [getPropertyRequest target.window AtomEnum.WM_TRANSIENT_FOR AtomEnum.WINDOW 1,
        getPropertyRequest target.window AtomEnum.WM_NORMAL_HINTS AtomEnum.WM_SIZE_HINTS 18,
        getPropertyRequest target.window netWmState AtomEnum.ATOM 32,
        getPropertyRequest target.window AtomEnum.WM_HINTS AtomEnum.WM_HINTS 9,
        getPropertyRequest target.window wmProtocols AtomEnum.ATOM 32,
        getPropertyRequest target.window netWmName utf8String 1024,
        getPropertyRequest target.window AtomEnum.WM_NAME AtomEnum.STRING 1024,
        getPropertyRequest target.window AtomEnum.WM_CLASS AtomEnum.STRING 1024]
    writeAll answers requests.flatten
    let transientFor ← readWords
    let sizeHints ← readWords
    let netState ← readWords
    let wmHints ← readWords
    let protocols ← readWords
    let metadata ← readInitialMetadata utf8String AtomEnum.STRING
    pure ⟨target, .initial ⟨parseTransient transientFor, parseSizeHints sizeHints, .fromWords netState,
      parseWmHints wmHints, .fromWords protocols, metadata⟩⟩
  | .transientFor target =>
    queryOne answers target AtomEnum.WM_TRANSIENT_FOR AtomEnum.WINDOW 1 fun words => .transientFor (parseTransient words)
  | .normalHints target =>
    queryOne answers target AtomEnum.WM_NORMAL_HINTS AtomEnum.WM_SIZE_HINTS 18 fun words =>
      .normalHints (parseSizeHints words)
  | .netState target netWmState =>
    queryOne answers target netWmState AtomEnum.ATOM 32 fun words => .netState (.fromWords words)
  | .wmHints target =>
    queryOne answers target AtomEnum.WM_HINTS AtomEnum.WM_HINTS 9 fun words => .wmHints (parseWmHints words)
  | .protocols target wmProtocols =>
    queryOne answers target wmProtocols AtomEnum.ATOM 32 fun words => .protocols (.fromWords words)
  | .title target netWmName utf8String => do
    let requests :=
      [getPropertyRequest target.window netWmName utf8String 1024,
        getPropertyRequest target.window AtomEnum.WM_NAME AtomEnum.STRING 1024]
    writeAll answers requests.flatten
    let title ← readTitle utf8String AtomEnum.STRING
    pure ⟨target, .title title⟩
  | .wmClass target => do
    writeAll answers (getPropertyRequest target.window AtomEnum.WM_CLASS AtomEnum.STRING 1024)
    let cls ← readClass AtomEnum.STRING
    pure ⟨target, .wmClass cls⟩

/-- A request the worker took from its queue, what the server answers to its
queries, and whether the result still finds room in the result queue. -/
structure Exchange where
  request : X11PropertyRequest
  answers : Nat → Answer
  accepted : Bool

structure Worker where
  unread : Bytes
  results : List X11PropertyResult
  failure : Option String

/-- One round of the worker's loop; after a failure it has returned. -/
def Worker.step (worker : Worker) (x : Exchange) : Worker :=
  match worker.failure with
  | some _ => worker
  | none =>
    match execute x.answers x.request worker.unread with
    | .ok result unread =>
      if x.accepted then ⟨unread, worker.results ++ [result], none⟩
      else ⟨unread, worker.results, some "X11 property result queue is unavailable"⟩
    | .error (.error e) unread => ⟨unread, worker.results, some e⟩
    | .error _ unread => ⟨unread, worker.results, some "panicked"⟩

def Worker.run (xs : List Exchange) : Worker := xs.foldl Worker.step ⟨[], [], none⟩

end TensorDE.Xwayland
