import TensorDE.Dbus.Stream

namespace TensorDE.Dbus

open Effect Bytes

def maxAuthLine : Nat := 4096
def maxAuthCommands : Nat := 16

/-- A server identity: sixteen bytes. -/
structure Guid where
  bytes : Bytes
  size : bytes.length = 16
deriving DecidableEq

structure Authenticated where
  unixFd : Bool
  serverGuid : Guid
  buffered : Bytes
  unixFds : List Fd

structure LineReader where
  buffered : Bytes
  unixFds : List Fd

def LineReader.new : LineReader := ⟨[], []⟩

def crlf : Bytes := [13, 10]

/-- The position of the first line end. -/
def findCrlf : Bytes → Option Nat
  | [] => none
  | 13 :: 10 :: _ => some 0
  | _ :: rest => (findCrlf rest).map (· + 1)

def lineTooLong : Error := .authentication "response line is too long"

variable (reader : LineReader)

/-- The first complete line and the reader behind it. -/
def takeLine : Except Error (Option (Bytes × LineReader)) :=
  match findCrlf reader.buffered with
  | none => .ok none
  | some stop =>
    if stop > maxAuthLine then .error lineTooLong
    else .ok (some (reader.buffered.take stop, { reader with buffered := reader.buffered.drop (stop + 2) }))

/-- The loop of `read`. Every round that does not end it takes a byte from the stream. -/
def readLineLoop (chunkCapacity : Nat) : Nat → LineReader → Op Channel Error (Bytes × LineReader)
  | 0, _ => throw .diverge
  | rounds + 1, reader =>
    match takeLine reader with
    | .error e => fail e
    | .ok (some found) => pure found
    | .ok none =>
      if reader.buffered.length > maxAuthLine then fail lineTooLong
      else do
        let got ← receive chunkCapacity reader.unixFds
        if got.1 = [] then fail (.authentication "connection closed during authentication")
        else readLineLoop chunkCapacity rounds ⟨reader.buffered ++ got.1, got.2⟩

def readLine (chunkCapacity : Nat) (reader : LineReader) : Op Channel Error (Bytes × LineReader) := do
  let channel ← get
  readLineLoop chunkCapacity (channel.cells.length + 2) reader

def LineReader.finish (unixFd : Bool) (serverGuid : Guid) : Authenticated :=
  ⟨unixFd, serverGuid, reader.buffered, reader.unixFds⟩

def hexDigits : Bytes := ofAscii "0123456789ABCDEF"

def pushHex (output bytes : Bytes) : Bytes :=
  output ++ bytes.flatMap fun byte : UInt8 =>
    [hexDigits.getD (byte >>> 4).toNat 0, hexDigits.getD (byte &&& 15).toNat 0]

def hex (byte : UInt8) : Option UInt8 :=
  if 48 ≤ byte ∧ byte ≤ 57 then some (byte - 48)
  else if 97 ≤ byte ∧ byte ≤ 102 then some (byte - 97 + 10)
  else if 65 ≤ byte ∧ byte ≤ 70 then some (byte - 65 + 10)
  else none

def hexPairs : Bytes → Option Bytes
  | high :: low :: rest => do
    let h ← hex high
    let l ← hex low
    let decoded ← hexPairs rest
    pure ((h <<< 4 ||| l) :: decoded)
  | _ => some []

/-- The value of a decimal text, most significant digit first. -/
def decimalValue (digits : Bytes) : Nat := digits.foldl (fun n digit => 10 * n + (digit.toNat - 48)) 0

def dropPlus : Bytes → Bytes
  | 43 :: rest => rest
  | text => text

/-- `str::parse::<u32>`: one plus sign may stand before the digits. -/
def parseU32 (text : Bytes) : Option UInt32 :=
  let digits := dropPlus text
  if digits ≠ [] ∧ digits.all isDigit ∧ decimalValue digits < 2 ^ 32 then some (UInt32.ofNat (decimalValue digits))
  else none

def externalUid (argument : Bytes) : Option UInt32 :=
  if argument = [] ∨ argument.length % 2 ≠ 0 then none
  else do
    let decoded ← hexPairs argument
    if isUtf8 decoded then parseU32 decoded else none

def Guid.parseBytes (value : Bytes) : Option Guid :=
  if value.length ≠ 32 then none
  else match hexPairs value with
    | some bytes => if h : bytes.length = 16 then some ⟨bytes, h⟩ else none
    | none => none

variable (guid : Guid)

/-- Lower-case hexadecimal, as the identity is displayed. -/
def Guid.display : Bytes :=
  let digits := ofAscii "0123456789abcdef"
  guid.bytes.flatMap fun byte : UInt8 => [digits.getD (byte >>> 4).toNat 0, digits.getD (byte &&& 15).toNat 0]

def stripPrefix (start line : Bytes) : Option Bytes :=
  if start <+: line then some (line.drop start.length) else none

def authExternal : Bytes := ofAscii "AUTH EXTERNAL"
def authExternalArgument : Bytes := ofAscii "AUTH EXTERNAL "
def dataArgument : Bytes := ofAscii "DATA "
def begin : Bytes := ofAscii "BEGIN"
def cancel : Bytes := ofAscii "CANCEL"
def negotiateUnixFd : Bytes := ofAscii "NEGOTIATE_UNIX_FD"
def rejected : Bytes := ofAscii "REJECTED EXTERNAL\r\n"

def okLine : Bytes := ofAscii "OK " ++ guid.display ++ crlf

/-- The server's variables between two commands. -/
structure Session where
  reader : LineReader
  first : Bool
  authenticated : Bool
  unixFd : Bool

def Session.new : Session := ⟨.new, true, false, false⟩

def mapErr {α : Type} (f : Error → Error) (x : Op Channel Error α) : Op Channel Error α := fun channel =>
  match x channel with
  | .ok a t => .ok a t
  | .error (.error e) t => .error (.error (f e)) t
  | .error e t => .error e t

/-- Accepts or rejects the client's identity. -/
def answerIdentity (session : Session) (accepted : Bool) : Op Channel Error Session :=
  if accepted then do
    writeAll (okLine guid)
    pure { session with authenticated := true }
  else do
    writeAll rejected
    pure session

variable (response : Bytes)

/-- The argument of the answer to a challenge; a line of another form counts as empty. -/
def challengeArgument : Bytes := (stripPrefix dataArgument response).getD []

def acceptsChallenge (peerUid : UInt32) (response : Bytes) : Bool :=
  challengeArgument response = [] || externalUid (challengeArgument response) = some peerUid

def authenticate (peerUid : UInt32) (session : Session) (line : Bytes) :
    Op Channel Error Session :=
  match stripPrefix authExternalArgument line with
  | some argument => answerIdentity guid session (externalUid argument = some peerUid)
  | none =>
    if line = authExternal then do
      writeAll (ofAscii "DATA\r\n")
      let answer ← readLine 1 session.reader
      answerIdentity guid { session with reader := answer.2 } (acceptsChallenge peerUid answer.1)
    else do
      writeAll rejected
      pure session

/-- The commands of an authenticated client other than `BEGIN`. -/
def afterAuthentication (session : Session) (line : Bytes) : Op Channel Error Session :=
  if line = negotiateUnixFd then do
    writeAll (ofAscii "AGREE_UNIX_FD\r\n")
    pure { session with unixFd := true }
  else if line = cancel then do
    writeAll rejected
    pure { session with authenticated := false, unixFd := false }
  else do
    writeAll (ofAscii "ERROR Unsupported command\r\n")
    pure session

/-- The next command line; the first one must start with a NUL byte. -/
def nextCommand (commandIndex : Nat) (session : Session) : Op Channel Error (Bytes × Session) := do
  let number := commandIndex + 1
  let authenticated := session.authenticated
  let unixFd := session.unixFd
  let found ← mapErr (.authenticationAfter
    s!"server handshake failed before command {number} (authenticated={authenticated}, unix_fd={unixFd})")
    (readLine 1 session.reader)
  let session := { session with reader := found.2 }
  if session.first then
    match found.1 with
    | 0 :: line => pure (line, { session with first := false })
    | _ => fail (.authentication "first client byte is not NUL")
  else pure (found.1, session)

def serverLoop (guid : Guid) (peerUid : UInt32) : Nat → Session → Op Channel Error Authenticated
  | 0, _ => do
    let limit := maxAuthCommands
    fail (.authentication s!"handshake exceeded the {limit}-command limit")
  | left + 1, session => do
    let command ← nextCommand (maxAuthCommands - (left + 1)) session
    let session := command.2
    if session.authenticated = false then do
      let session ← authenticate guid peerUid session command.1
      serverLoop guid peerUid left session
    else if command.1 = begin then pure (session.reader.finish session.unixFd guid)
    else do
      let session ← afterAuthentication session command.1
      serverLoop guid peerUid left session

def authenticateServer (peerUid : UInt32) : Op Channel Error Authenticated :=
  serverLoop guid peerUid maxAuthCommands .new

def okServerGuid : Option Guid := do
  Guid.parseBytes (← stripPrefix (ofAscii "OK ") response)

/-- `u32::to_string`. -/
def decimalText (n : Nat) : Bytes := (Nat.toDigits 10 n).map fun c => c.toNat.toUInt8

def guidMismatch (expectedGuid : Option Guid) (serverGuid : Guid) : Option Error :=
  match expectedGuid with
  | none => none
  | some expected =>
    if expected ≠ serverGuid then some (.guidMismatch expected.display serverGuid.display) else none

def authenticateClient (uid : UInt32) (expectedGuid : Option Guid) : Op Channel Error Authenticated := do
  writeAll (pushHex (0 :: authExternalArgument) (decimalText uid.toNat) ++ crlf)
  let response ← readLine 256 .new
  match okServerGuid response.1 with
  | none => fail (.authenticationAbout response.1)
  | some serverGuid =>
    match guidMismatch expectedGuid serverGuid with
    | some e => fail e
    | none => do
      writeAll (negotiateUnixFd ++ crlf)
      let answer ← readLine 256 response.2
      let unixFd ←
        if answer.1 = ofAscii "AGREE_UNIX_FD" then pure true
        else if ofAscii "ERROR" <+: answer.1 then pure false
        else fail (.authenticationAbout answer.1)
      writeAll (begin ++ crlf)
      pure (answer.2.finish unixFd serverGuid)

end TensorDE.Dbus
