import TensorDE.Ipc.Codec

namespace TensorDE.Ipc

def IPC_PROTOCOL_VERSION : UInt16 := 8

def MAX_SUBSCRIPTION_TOPICS : Nat := 8

inductive EventTopic where
  | configReload
deriving DecidableEq

/-- The commands, as far as the server or the form of their reply tells them apart. -/
inductive Command where
  | subscribe (events : List EventTopic)
  | quit
  | other
deriving DecidableEq

structure Request where
  version : UInt16
  requestId : UInt64
  command : Command
deriving DecidableEq

/-- A result; `β` are the bodies of the commands the server only forwards. -/
inductive ResultBody (β : Type) where
  | accepted
  | error (code message : String)
  | other (body : β)

structure Response (β : Type) where
  version : UInt16
  requestId : UInt64
  result : ResultBody β

def Response.new {β : Type} (requestId : UInt64) (result : ResultBody β) : Response β :=
  ⟨IPC_PROTOCOL_VERSION, requestId, result⟩

def Response.error {β : Type} (requestId : UInt64) (code message : String) : Response β :=
  .new requestId (.error code message)

/-- A message of the server; `η` are the events of a subscription. -/
inductive ServerMessage (β η : Type) where
  | response (response : Response β)
  | event (event : η)

structure IpcReply (β : Type) where
  response : Response β
  stopAfterFlush : Bool

namespace IpcReply

variable {β : Type} (response : Response β)

def new : IpcReply β := ⟨response, false⟩

def stop : IpcReply β := ⟨response, true⟩

def isAccepted (reply : IpcReply β) : Bool :=
  match reply.response.result with
  | .accepted => true
  | _ => false

def requestId (reply : IpcReply β) : UInt64 := reply.response.requestId

end IpcReply

/-- JSON as the two ends use it. -/
structure Json (β η : Type) where
  deserialize : Bytes → Option Request
  serialize : ServerMessage β η → Bytes

/-! The compositor's side of the bridge. -/

section Compositor

variable {β : Type}

/-- The reply to a request; `result` is what a forwarded command comes to. -/
def handleIpcRequest (result : ResultBody β) (request : Request) : IpcReply β :=
  let requestId := request.requestId
  let version := request.version
  if version ≠ IPC_PROTOCOL_VERSION then
    .new (.error requestId "unsupported_version" s!"protocol version {version} is unsupported; expected {IPC_PROTOCOL_VERSION}")
  else
    match request.command with
    | .subscribe events =>
      if events = [] ∨ events.length > MAX_SUBSCRIPTION_TOPICS then
        .new (.error requestId "invalid_argument" s!"subscription requires 1..={MAX_SUBSCRIPTION_TOPICS} event topics")
      else if ¬events.Nodup then .new (.error requestId "invalid_argument" "subscription event topics must be unique")
      else .new (.new requestId .accepted)
    | .quit => .stop (.new requestId .accepted)
    | .other => .new (.new requestId result)

def Command.isSubscribe : Command → Bool
  | .subscribe _ => true
  | _ => false

/-- What the compositor does with a request that it does not drop. -/
structure Handling (β : Type) where
  result : ResultBody β
  /-- The subscription registry still has room. -/
  registers : Bool

/-- `drain_ipc_events` on one event; `subscription` says that a sink came with it. -/
def answer (handling : Handling β) (request : Request) (subscription : Bool) : IpcReply β :=
  let reply := handleIpcRequest handling.result request
  if request.command.isSubscribe && reply.isAccepted then
    if subscription then
      if handling.registers then reply
      else .new (.error reply.requestId "queue_full" "IPC subscription registry is full")
    else .new (.error reply.requestId "invalid_subscription" "subscribe must be the final complete request in its read batch")
  else reply

end Compositor

/-! The connection task. -/

/-- What becomes of a request at the bridge. -/
inductive Submission (β : Type) where
  | full
  | disconnected
  /-- Accepted, and later handled or dropped without a reply. -/
  | queued (handling : Option (Handling β))

inductive PendingIpcReply (β : Type) where
  /-- `response` is what the oneshot resolves to, nothing where its sender is dropped. -/
  | compositor (requestId : UInt64) (response : Option (IpcReply β)) (subscription : Bool)
  | ready (reply : IpcReply β) (closeAfterFlush : Bool)

section Batch

variable {β η : Type}

def unavailableResponse (requestId : UInt64) : IpcReply β :=
  .new (.error requestId "service_unavailable" "compositor IPC service has stopped")

def unavailableReply (requestId : UInt64) (closeAfterFlush : Bool) : PendingIpcReply β :=
  .ready (unavailableResponse requestId) closeAfterFlush

def queueFullResponse (requestId : UInt64) : IpcReply β :=
  .new (.error requestId "queue_full" "compositor IPC request queue is full")

namespace PendingIpcReply

def requestId : PendingIpcReply β → UInt64
  | compositor requestId _ _ => requestId
  | ready reply _ => reply.requestId

def resolve : PendingIpcReply β → Except UInt64 (IpcReply β × Bool × Bool)
  | compositor requestId response subscription =>
    match response with
    | some reply => .ok (reply, false, subscription)
    | none => .error requestId
  | ready reply closeAfterFlush => .ok (reply, closeAfterFlush, false)

end PendingIpcReply

/-- The submission loop over the requests of one read, from the request at `index`. -/
def submit (answers : Nat → Submission β) (boundary : Bool) (count : Nat) :
    Nat → Bool → List Request → List (PendingIpcReply β)
  | _, _, [] => []
  | index, bridgeStopped, request :: requests =>
    let closesBatch := index + 1 == count
    if bridgeStopped then
      unavailableReply request.requestId closesBatch :: submit answers boundary count (index + 1) true requests
    else
      let subscription := closesBatch && boundary && request.command.isSubscribe
      match answers index with
      | .queued handling =>
        .compositor request.requestId (handling.map fun handling => answer handling request subscription) subscription ::
          submit answers boundary count (index + 1) false requests
      | .full =>
        .ready (queueFullResponse request.requestId) false :: submit answers boundary count (index + 1) false requests
      | .disconnected =>
        unavailableReply request.requestId closesBatch :: submit answers boundary count (index + 1) true requests

/-- What the connection did that others can see. -/
inductive Output (β η : Type) where
  /-- A response was written; `subscribed` says that it accepts a subscription. -/
  | response (reply : IpcReply β) (frame : Bytes) (subscribed : Bool)
  | event (event : η) (frame : Bytes)
  | shutdownFlushed

inductive Phase where
  | reading
  | streaming
  | closed
deriving DecidableEq

def notifyShutdownIfNeeded (stopAfterFlush : Bool) : List (Output β η) := if stopAfterFlush then [.shutdownFlushed] else []

/-- What the reply loop writes for a pending reply, and whether the compositor has stopped by then. -/
structure Resolved (β : Type) where
  reply : IpcReply β
  closeAfterFlush : Bool
  subscription : Bool
  compositorStopped : Bool

def PendingIpcReply.resolved (compositorStopped closesBatch : Bool) (pendingReply : PendingIpcReply β) : Resolved β :=
  if compositorStopped then ⟨unavailableResponse pendingReply.requestId, closesBatch, false, true⟩
  else
    match pendingReply.resolve with
    | .ok (reply, closeAfterFlush, subscription) => ⟨reply, closeAfterFlush, subscription, false⟩
    | .error requestId => ⟨unavailableResponse requestId, closesBatch, false, true⟩

/-- The reply loop over the pending replies of one read, from the one at `index`. -/
def flush (json : Json β η) (count : Nat) :
    Nat → Bool → Bool → List (PendingIpcReply β) → List (Output β η) × Phase
  | _, _, subscriptionEvents, [] => ([], if subscriptionEvents then .streaming else .reading)
  | index, compositorStopped, subscriptionEvents, pendingReply :: pending =>
    let closesBatch := index + 1 == count
    let resolved := pendingReply.resolved compositorStopped closesBatch
    match encodeInto (json.serialize (.response resolved.reply.response)) with
    | .error _ => ([], .closed)
    | .ok frame =>
      let accepted := resolved.reply.isAccepted
      let subscriptionEvents := if accepted then resolved.subscription else subscriptionEvents
      let outputs := .response resolved.reply frame (accepted && resolved.subscription) ::
        notifyShutdownIfNeeded resolved.reply.stopAfterFlush
      if resolved.closeAfterFlush then (outputs, .closed)
      else
        let rest := flush json count (index + 1) resolved.compositorStopped subscriptionEvents pending
        (outputs ++ rest.1, rest.2)

structure Connection (β η : Type) where
  phase : Phase
  decoder : FrameDecoder
  log : List (Output β η)
  /-- The bytes that were read for requests. -/
  stream : Bytes

/-- One round of the request loop on the bytes of a read. -/
def Connection.read (json : Json β η) (c : Connection β η) (bytes : Bytes) (answers : Nat → Submission β) : Connection β η :=
  let stream := c.stream ++ bytes
  match c.decoder.pushInto json.deserialize bytes with
  | (decoder, _, .error _) => ⟨.closed, decoder, c.log, stream⟩
  | (decoder, decodedRequests, .ok ()) =>
    let batchEndsOnFrameBoundary := decoder.bufferedBytes == 0
    let pending := submit answers batchEndsOnFrameBoundary decodedRequests.length 0 false decodedRequests
    let flushed := flush json pending.length 0 false false pending
    ⟨flushed.2, decoder, c.log ++ flushed.1, stream⟩

/-- What comes to the connection: a read that completes (with no bytes at the
end of the stream) or fails, and what the subscription brings. -/
inductive Input (β η : Type) where
  | read (bytes : Bytes) (answers : Nat → Submission β)
  | readFailed
  | event (event : η)
  | eventsEnded

def Connection.close (c : Connection β η) : Connection β η := { c with phase := .closed }

def Connection.step (json : Json β η) (c : Connection β η) : Input β η → Option (Connection β η)
  | .read bytes answers =>
    match c.phase with
    | .reading => some (if bytes.length == 0 then c.close else c.read json bytes answers)
    -- Whatever the peer of a subscription does, it ends it.
    | .streaming => some c.close
    | .closed => none
  | .readFailed => if c.phase = .closed then none else some c.close
  | .event event =>
    if c.phase = .streaming then
      match encodeInto (json.serialize (.event event)) with
      | .error _ => some c.close
      | .ok frame => some { c with log := c.log ++ [.event event frame] }
    else none
  | .eventsEnded => if c.phase = .streaming then some c.close else none

def Connection.accepted : Connection β η := ⟨.reading, .new, [], []⟩

end Batch

end TensorDE.Ipc
