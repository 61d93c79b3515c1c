import TensorDE.Dbus.Auth
import TensorDE.Dbus.DecodeSafety

namespace TensorDE.Dbus

open Effect Bytes List

/-- The reader between two calls; a started read that is dropped is resumed by the next call. -/
structure MessageReader where
  channel : Channel
  buffered : Bytes
  unixFds : List Fd
  unixFd : Bool
  failed : Bool

def MessageReader.new (channel : Channel) (unixFd : Bool) (buffered : Bytes) (unixFds : List Fd) : MessageReader :=
  ⟨channel, buffered, unixFds, unixFd, false⟩

def validateReceivedUnixFds (negotiated : Bool) (unixFds : List Fd) : Op Channel Error Unit :=
  if negotiated = false ∧ unixFds ≠ [] then fail .unixFdUnsupported else pure ()

def readChunk (bytes : Bytes) (stop : Nat) (unixFds : List Fd) : Op Channel Error (Bytes × List Fd) := do
  let capacity ← subUsize stop bytes.length
  let got ← receive capacity unixFds
  if got.1 = [] then fail (.io "D-Bus connection closed during a message")
  else pure (bytes ++ got.1, got.2)

/-- `while bytes.len() < stop { read_chunk }`. Every round takes a byte. -/
def fillLoop (stop : Nat) : Nat → Bytes → List Fd → Op Channel Error (Bytes × List Fd)
  | 0, _, _ => throw .diverge
  | rounds + 1, bytes, unixFds =>
    if bytes.length < stop then do
      let next ← readChunk bytes stop unixFds
      fillLoop stop rounds next.1 next.2
    else pure (bytes, unixFds)

def fill (stop : Nat) (bytes : Bytes) (unixFds : List Fd) : Op Channel Error (Bytes × List Fd) :=
  fillLoop stop (stop + 1) bytes unixFds

def decoded (result : Except (Fault Error) Message) : Op Channel Error Message :=
  match result with
  | .ok message => pure message
  | .error e => throw e

variable (z : Zvariant)

def readMessageFrom (unixFdNegotiated : Bool) (bytes : Bytes) (unixFds : List Fd) :
    Op Channel Error Message := do
  let head ← fill fixedHeaderLen bytes unixFds
  validateReceivedUnixFds unixFdNegotiated head.2
  -- the conversion to an array of sixteen bytes is unwrapped
  if head.1.length ≠ fixedHeaderLen then throw .panic
  else do
    let total ← frameLen head.1
    let _ ← subUsize total fixedHeaderLen
    let frame ← fill total head.1 head.2
    validateReceivedUnixFds unixFdNegotiated frame.2
    decoded (decode z frame.1 frame.2)

/-- A returned error closes the reader; the bytes it held are gone. -/
def MessageReader.read : Op MessageReader Error Message := fun reader =>
  if reader.failed then .error (.error .connectionUnusable) reader
  else
    match readMessageFrom z reader.unixFd reader.buffered reader.unixFds reader.channel with
    | .ok message channel => .ok message { reader with channel := channel, buffered := [], unixFds := [] }
    | .error (.error e) channel =>
      .error (.error e) { reader with channel := channel, buffered := [], unixFds := [], failed := true }
    | .error e channel => .error e { reader with channel := channel, buffered := [], unixFds := [] }

def MessageReader.readMany (z : Zvariant) : Nat → Op MessageReader Error (List Message)
  | 0 => pure []
  | count + 1 => do
    let message ← MessageReader.read z
    let messages ← MessageReader.readMany z count
    pure (message :: messages)

structure Frame (z : Zvariant) (unixFd : Bool) where
  cells : List Cell
  message : Message
  decodes : decode z (bytesOf cells) (fdsOf cells) = .ok message
  allowed : unixFd = false → fdsOf cells = []

section Reading

variable {σ τ : Type} {z : Zvariant} {unixFd : Bool}

variable {s s' : σ}

theorem ofByte_eq_ok {byte : UInt8} {kind : MessageKind} (h : MessageKind.ofByte byte s = .ok kind s')
    (t : τ) : MessageKind.ofByte byte t = .ok kind t := by
  unfold MessageKind.ofByte at h ⊢
  split at h
  all_goals first | (cases h; rfl) | cases h

/-- The length of a frame does not depend on the state of the reader. -/
theorem frameLen_eq_ok {fixed : Bytes} (hlen : fixed.length = fixedHeaderLen) {total : Nat}
    (h : frameLen fixed s = .ok total s') (t : τ) : frameLen fixed t = .ok total t := by
  have hlen' := hlen
  unfold fixedHeaderLen at hlen'
  have h0 : fixed[0]? = some fixed[0] := getElem?_eq_getElem (by omega)
  have h1 : fixed[1]? = some fixed[1] := getElem?_eq_getElem (by omega)
  have h3 : fixed[3]? = some fixed[3] := getElem?_eq_getElem (by omega)
  cases hend : endianOf fixed[0] with
  | none => simp [frameLen, byteAt, h0, parseEndian_run, hend] at h
  | some endian =>
    by_cases hv : fixed[3] = 1
    swap
    · simp [frameLen, byteAt, h0, h3, parseEndian_run, hend, hv] at h
    obtain ⟨kind, s'', hkind, rfl⟩ | ⟨e, s'', he⟩ := (ofByte_triple (P := (· = s)) fixed[1]).run rfl
    swap
    · simp [frameLen, byteAt, h0, h1, h3, parseEndian_run, hend, hv, he] at h
    rw [frameLen_run hlen h0 hend (hv ▸ h3) h1 hkind] at h
    rw [frameLen_run hlen h0 hend (hv ▸ h3) h1 (ofByte_eq_ok hkind t)]
    grind

variable {bytes : Bytes} {fds : List Fd} {message : Message}

theorem frameLen_of_decode (h : decode z bytes fds = .ok message) (t : τ) :
    fixedHeaderLen ≤ bytes.length ∧ frameLen (bytes.take fixedHeaderLen) t = .ok bytes.length t := by
  unfold decode at h
  split at h
  swap
  · cases h
  rename_i message' p hrun
  unfold decodeMessage at hrun
  by_cases hshort : bytes.length < fixedHeaderLen
  · simp [hshort] at hrun
  rw [if_neg hshort] at hrun
  obtain ⟨total, q, htotal, hrest⟩ := bind_eq_ok.mp hrun
  by_cases hmatch : bytes.length = total
  swap
  · simp [hmatch] at hrest
  grind [frameLen_eq_ok]

theorem parseFieldsLoop_sameFrame {fieldsEnd rounds known p q : Nat} {endian : Endian} {message message' : Message}
    (h : parseFieldsLoop z bytes fieldsEnd endian rounds known message p = .ok message' q) :
    message.SameFrame message' := by
  induction rounds generalizing known message p with
  | zero => cases h
  | succ rounds ih =>
    obtain ⟨p', _, hget, h⟩ := bind_eq_ok.mp h
    by_cases hlt : p' < fieldsEnd
    swap
    · rw [if_neg hlt] at h
      cases h
      exact Message.SameFrame.refl _
    rw [if_pos hlt] at h
    obtain ⟨_, _, -, h⟩ := bind_eq_ok.mp h
    obtain ⟨position, _, -, h⟩ := bind_eq_ok.mp h
    by_cases hend : position = fieldsEnd
    · rw [if_pos hend] at h
      cases h
      exact Message.SameFrame.refl _
    rw [if_neg hend] at h
    obtain ⟨head, _, -, h⟩ := bind_eq_ok.mp h
    obtain ⟨known', _, -, h⟩ := bind_eq_ok.mp h
    obtain ⟨value, _, -, h⟩ := bind_eq_ok.mp h
    exact (assignField_sameFrame message head.1 value).trans (ih h)

theorem unixFds_of_validate (h : validateUnixFds message s = .ok () s') : message.unixFds.length ≤ maxUnixFds := by
  unfold validateUnixFds at h
  by_cases hlimit : (message.declaredUnixFds.map (·.toNat)).getD 0 > maxUnixFds
  · simp [hlimit] at h
  by_cases hcount : (message.declaredUnixFds.map (·.toNat)).getD 0 = message.unixFds.length
  · omega
  · simp [hlimit, hcount] at h

theorem unixFds_of_decode (h : decode z bytes fds = .ok message) : fds.length ≤ maxUnixFds := by
  unfold decode at h
  split at h
  swap
  · cases h
  rename_i message' p hrun
  unfold decodeMessage at hrun
  by_cases hshort : bytes.length < fixedHeaderLen
  · simp [hshort] at hrun
  rw [if_neg hshort] at hrun
  obtain ⟨total, _, -, hrun⟩ := bind_eq_ok.mp hrun
  by_cases hmatch : bytes.length = total
  swap
  · simp [hmatch] at hrun
  rw [if_neg (by simpa using hmatch)] at hrun
  obtain ⟨_, _, -, hrun⟩ := bind_eq_ok.mp hrun
  obtain ⟨endian, _, -, hrun⟩ := bind_eq_ok.mp hrun
  obtain ⟨_, _, -, hrun⟩ := bind_eq_ok.mp hrun
  obtain ⟨kind, _, -, hrun⟩ := bind_eq_ok.mp hrun
  obtain ⟨flags, _, -, hrun⟩ := bind_eq_ok.mp hrun
  obtain ⟨_, _, -, hrun⟩ := bind_eq_ok.mp hrun
  obtain ⟨serial, _, -, hrun⟩ := bind_eq_ok.mp hrun
  by_cases hserial : serial = 0
  · simp [hserial] at hrun
  rw [if_neg hserial] at hrun
  obtain ⟨_, _, -, hrun⟩ := bind_eq_ok.mp hrun
  obtain ⟨fieldsLen, _, -, hrun⟩ := bind_eq_ok.mp hrun
  obtain ⟨_, _, -, hrun⟩ := bind_eq_ok.mp hrun
  obtain ⟨bodyLen, _, -, hrun⟩ := bind_eq_ok.mp hrun
  -- the field loop keeps the descriptors, and the validators count them
  obtain ⟨fieldsEnd, _, -, hrun⟩ := bind_eq_ok.mp hrun
  obtain ⟨bodyPosition, _, -, hrun⟩ := bind_eq_ok.mp hrun
  obtain ⟨bodyEnd, _, -, hrun⟩ := bind_eq_ok.mp hrun
  obtain ⟨parsed, _, hparse, hrun⟩ := bind_eq_ok.mp hrun
  obtain ⟨_, _, -, hrun⟩ := bind_eq_ok.mp hrun
  obtain ⟨_, _, -, hrun⟩ := bind_eq_ok.mp hrun
  obtain ⟨_, _, hvalid, -⟩ := bind_eq_ok.mp hrun
  obtain ⟨_, _, hfds, -⟩ := bind_eq_ok.mp hvalid
  obtain ⟨_, _, -, hloop⟩ := bind_eq_ok.mp hparse
  have hsame := (parseFieldsLoop_sameFrame hloop).2.2.2.2.2.1
  have hle := unixFds_of_validate hfds
  rw [hsame] at hle
  exact hle

variable {pre want rest : List Cell}

theorem length_bytesOf (cells : List Cell) : (bytesOf cells).length = cells.length := length_map _

/-- The loop collects exactly the cells up to `stop`, however they arrive. -/
theorem fillLoop_run (pre want rest : List Cell) (stop rounds : Nat) (channel : Channel)
    (hcells : pre ++ channel.cells = want ++ rest)
    (hstop : want.length = stop) (hpre : pre.length ≤ stop) (hrounds : stop < pre.length + rounds)
    (hfds : (fdsOf want).length ≤ maxUnixFds) :
    ∃ channel', fillLoop stop rounds (bytesOf pre) (fdsOf pre) channel = .ok (bytesOf want, fdsOf want) channel' ∧
      channel'.cells = rest := by
  induction rounds generalizing pre channel with
  | zero => omega
  | succ rounds ih =>
    by_cases hlt : pre.length < stop
    swap
    · have hlen : pre.length = want.length := by omega
      obtain ⟨rfl, hrest⟩ := append_inj hcells hlen
      exact ⟨channel, by simp [fillLoop, length_bytesOf, hlt], hrest⟩
    have hwant : want = pre ++ channel.cells.take (stop - pre.length) := by
      have h := congrArg (List.take stop) hcells
      rw [take_append, take_of_length_le (by omega), take_left' hstop] at h
      exact h.symm
    have hne : channel.cells ≠ [] := by
      intro hempty
      have := congrArg List.length hwant
      rw [hempty] at this
      simp at this
      omega
    have hlimit : (fdsOf pre).length + (fdsOf (channel.cells.take (stop - pre.length))).length ≤ maxUnixFds := by
      rw [← length_append, ← fdsOf_append, ← hwant]
      exact hfds
    obtain ⟨cells, channel', hrecv, hsplit, hgot, hcap⟩ := receive_run (by omega) hne hlimit
    obtain ⟨channel'', hrun, hrest⟩ := ih (pre ++ cells) channel'
      (by rw [append_assoc, ← hsplit, hcells]) (by rw [length_append]; omega)
      (by have := length_pos_iff.mpr hgot; rw [length_append]; omega)
    refine ⟨channel'', ?_, hrest⟩
    rw [bytesOf_append, fdsOf_append] at hrun
    have hbytes : bytesOf cells ≠ [] := by simpa [bytesOf] using hgot
    simp [fillLoop, readChunk, length_bytesOf, hlt, subUsize, Nat.le_of_lt hlt, hrecv, hbytes, hrun]

theorem validateReceivedUnixFds_run (h : unixFd = false → fds = []) (channel : Channel) :
    validateReceivedUnixFds unixFd fds channel = .ok () channel := by
  cases unixFd with
  | true => simp [validateReceivedUnixFds]
  | false => simp [validateReceivedUnixFds, h rfl]

variable {channel : Channel} (frame : Frame z unixFd)

theorem readMessageFrom_run (hcells : pre ++ channel.cells = frame.cells ++ rest) (hpre : pre.length ≤ fixedHeaderLen) :
    ∃ channel', readMessageFrom z unixFd (bytesOf pre) (fdsOf pre) channel = .ok frame.message channel' ∧
      channel'.cells = rest := by
  obtain ⟨hlen, -⟩ := frameLen_of_decode frame.decodes channel
  have htotal := fun t : Channel => (frameLen_of_decode frame.decodes t).2
  rw [length_bytesOf] at hlen htotal
  have hfds := unixFds_of_decode frame.decodes
  have hhead : (fdsOf (frame.cells.take fixedHeaderLen)).length ≤ (fdsOf frame.cells).length := by
    have h := fdsOf_append (frame.cells.take fixedHeaderLen) (frame.cells.drop fixedHeaderLen)
    rw [take_append_drop] at h
    rw [h, length_append]
    omega
  have hallowed : unixFd = false → fdsOf (frame.cells.take fixedHeaderLen) = [] := by
    intro h
    rw [frame.allowed h] at hhead
    exact eq_nil_of_length_eq_zero (Nat.eq_zero_of_le_zero hhead)
  have hfixed : (frame.cells.take fixedHeaderLen).length = fixedHeaderLen := length_take_of_le hlen
  obtain ⟨middle, hfill, hmiddle⟩ := fillLoop_run pre (frame.cells.take fixedHeaderLen)
    (frame.cells.drop fixedHeaderLen ++ rest) fixedHeaderLen (fixedHeaderLen + 1) channel
    (by rw [hcells, ← append_assoc, take_append_drop]) hfixed hpre (by omega)
    (Nat.le_trans hhead hfds)
  obtain ⟨channel', hfill', hrest⟩ := fillLoop_run (frame.cells.take fixedHeaderLen) frame.cells rest
    frame.cells.length (frame.cells.length + 1) middle
    (by rw [hmiddle, ← append_assoc, take_append_drop]) rfl (by omega) (by omega) hfds
  have hbytes : bytesOf (frame.cells.take fixedHeaderLen) = (bytesOf frame.cells).take fixedHeaderLen := map_take
  refine ⟨channel', ?_, hrest⟩
  have hframeLen := htotal middle
  rw [← hbytes] at hframeLen
  simp [readMessageFrom, fill, hfill, validateReceivedUnixFds_run hallowed, length_bytesOf, hframeLen, subUsize,
    hlen, hfill', validateReceivedUnixFds_run frame.allowed, frame.decodes, decoded]

theorem readMessageFrom_panics (channel : Channel) (hlong : fixedHeaderLen < pre.length)
    (hallowed : unixFd = false → fdsOf pre = []) :
    readMessageFrom z unixFd (bytesOf pre) (fdsOf pre) channel = .error .panic channel := by
  have hfill : fillLoop fixedHeaderLen (fixedHeaderLen + 1) (bytesOf pre) (fdsOf pre) channel =
      .ok (bytesOf pre, fdsOf pre) channel := by
    simp [fillLoop, length_bytesOf, Nat.not_lt.mpr (Nat.le_of_lt hlong)]
  simp [readMessageFrom, fill, hfill, validateReceivedUnixFds_run hallowed, length_bytesOf, Nat.ne_of_gt hlong]

theorem read_run (hcells : pre ++ channel.cells = frame.cells ++ rest) (hpre : pre.length ≤ fixedHeaderLen) :
    ∃ channel', (MessageReader.read z) (.new channel unixFd (bytesOf pre) (fdsOf pre)) =
      .ok frame.message (.new channel' unixFd [] []) ∧ channel'.cells = rest := by
  grind [readMessageFrom_run, MessageReader.read, MessageReader.new]

end Reading

/-- Reading `count` messages gives the first `count` frames, for every `count`,
and every byte behind them is still there for the next read. -/
def Reassembles (unixFd : Bool) (frames : List (Frame z unixFd)) (leftover : List Cell)
    (channel : Channel) : Prop :=
  ∀ count ≤ frames.length, ∃ reader,
    MessageReader.readMany z count (.new channel unixFd (bytesOf leftover) (fdsOf leftover)) =
      .ok ((frames.take count).map (·.message)) reader ∧
    reader.failed = false ∧
    reader.buffered ++ reader.channel.bytes = bytesOf ((frames.drop count).flatMap (·.cells))

section Frames

variable {z : Zvariant} {unixFd : Bool} {frames : List (Frame z unixFd)} {leftover : List Cell} {channel : Channel}

section

variable (h : leftover ++ channel.cells = frames.flatMap (·.cells))
include h

theorem reassembles_of_short (hshort : leftover.length ≤ fixedHeaderLen) : Reassembles z unixFd frames leftover channel := by
  intro count hcount
  induction count generalizing frames leftover channel with
  | zero =>
    refine ⟨_, rfl, rfl, ?_⟩
    rw [drop_zero, ← h, bytesOf_append]
    rfl
  | succ count ih =>
    cases frames with
    | nil => simp at hcount
    | cons frame frames =>
      rw [flatMap_cons] at h
      obtain ⟨channel', hread, hrest⟩ := read_run frame h hshort
      obtain ⟨reader, hmany, hfailed, hleft⟩ := @ih frames [] channel'
        (by simpa using hrest) (Nat.zero_le _) (by simpa using hcount)
      refine ⟨reader, ?_, hfailed, by simpa using hleft⟩
      have hmany' : MessageReader.readMany z count (.new channel' unixFd [] []) = _ := hmany
      simp [MessageReader.readMany, hread, hmany']

theorem read_panics (hlong : fixedHeaderLen < leftover.length) :
    ∃ reader, MessageReader.read z (.new channel unixFd (bytesOf leftover) (fdsOf leftover)) = .error .panic reader := by
  have hallowed : unixFd = false → fdsOf leftover = [] := by
    intro hfd
    have hall : fdsOf (leftover ++ channel.cells) = [] := by
      rw [h, fdsOf, flatMap_eq_nil_iff]
      intro cell hcell
      obtain ⟨frame, -, hmem⟩ := mem_flatMap.mp hcell
      exact flatMap_eq_nil_iff.mp (frame.allowed hfd) cell hmem
    rw [fdsOf_append] at hall
    exact (append_eq_nil_iff.mp hall).1
  have hrun := readMessageFrom_panics (z := z) channel hlong hallowed
  exact ⟨.new channel unixFd [] [], by simp [MessageReader.read, MessageReader.new, hrun]⟩

theorem not_reassembles_of_long (hlong : fixedHeaderLen < leftover.length) : ¬ Reassembles z unixFd frames leftover channel := by
  intro hall
  obtain ⟨reader, hpanic⟩ := read_panics h hlong
  have hpos : 1 ≤ frames.length := by
    cases frames with
    | nil =>
      obtain ⟨rfl, -⟩ := append_eq_nil_iff.mp h
      exact absurd hlong (Nat.not_lt_zero _)
    | cons frame frames => simp
  obtain ⟨reader', hmany, -⟩ := hall 1 hpos
  simp [MessageReader.readMany, hpanic] at hmany

end

end Frames

/-- The reader reassembles the frames exactly when the handshake has left over no
more bytes than a fixed header. -/
theorem reassembles_iff (z : Zvariant) (unixFd : Bool) (frames : List (Frame z unixFd)) (leftover : List Cell)
    (channel : Channel) (h : leftover ++ channel.cells = frames.flatMap (·.cells)) :
    Reassembles z unixFd frames leftover channel ↔ leftover.length ≤ fixedHeaderLen := by
  grind [not_reassembles_of_long, reassembles_of_short]

def replyCells : List Cell := replyFrame.map fun byte => ⟨byte, []⟩

theorem exists_replyCells_frame : ∃ frame : Frame lenientZvariant false, frame.cells = replyCells := by
  have hok : (decode lenientZvariant (bytesOf replyCells) (fdsOf replyCells)).isOk = true := by decide
  cases hdecode : decode lenientZvariant (bytesOf replyCells) (fdsOf replyCells) with
  | error e =>
    rw [hdecode] at hok
    cases hok
  | ok message => exact ⟨⟨replyCells, message, hdecode, fun _ => by decide⟩, rfl⟩

theorem two_replies_reassemble : ∃ frame : Frame lenientZvariant false, frame.cells = replyCells ∧
    Reassembles lenientZvariant false [frame, frame] (replyCells.take 5)
      ⟨keep (replyCells.drop 5 ++ replyCells.take 3) (keep (replyCells.drop 3) []), false, 0, []⟩ := by
  obtain ⟨frame, hframe⟩ := exists_replyCells_frame
  refine ⟨frame, hframe, (reassembles_iff lenientZvariant false [frame, frame] (replyCells.take 5) _ ?_).mpr (by decide)⟩
  rw [Channel.cells, cellsOf_keep, cellsOf_keep]
  simp only [flatMap_cons, flatMap_nil, hframe]
  decide

def serverPieces : List Piece :=
  keep ((ofAscii "OK 00000000000000000000000000000000\r\n").map fun byte => ⟨byte, []⟩)
    (keep ((ofAscii "ERROR\r\n" ++ replyFrame).map fun byte => ⟨byte, []⟩) [])

/-- A server that sends its first message with its last answer leaves that message
with the client's line reader, and the first read panics. -/
theorem pipelined_reply_panics : ∃ frame : Frame lenientZvariant false, ∃ result channel,
    authenticateClient 1000 none ⟨serverPieces, false, 3, []⟩ = .ok result channel ∧
    result.buffered = bytesOf frame.cells ∧ result.unixFds = fdsOf frame.cells ∧ result.unixFd = false ∧
    channel.incoming = [] ∧ ¬ Reassembles lenientZvariant false [frame] frame.cells channel := by
  obtain ⟨frame, hframe⟩ := exists_replyCells_frame
  have hok : (match authenticateClient 1000 none ⟨serverPieces, false, 3, []⟩ with
    | .ok result channel => decide (result.buffered = bytesOf replyCells ∧ result.unixFds = fdsOf replyCells ∧
        result.unixFd = false ∧ channel.incoming = [])
    | .error _ _ => false) = true := by decide +kernel
  cases hrun : authenticateClient 1000 none ⟨serverPieces, false, 3, []⟩ with
  | error e channel => simp [hrun] at hok
  | ok result channel =>
    simp only [hrun, decide_eq_true_eq] at hok
    obtain ⟨hbuffered, hfds, hfd, hempty⟩ := hok
    refine ⟨frame, result, channel, rfl, by rw [hframe, hbuffered], by rw [hframe, hfds], hfd, hempty, ?_⟩
    refine not_reassembles_of_long ?_ (by rw [hframe]; decide)
    simp [Channel.cells, hempty, cellsOf]

end TensorDE.Dbus
