import Mathlib.Data.Finset.Card
import TensorDE.Dbus.Wire

namespace TensorDE.Dbus

open Effect

def maxPendingMessages : Nat := 256
def maxPendingBytes : Nat := 32 * 1024 * 1024
def maxAbandonedReplies : Nat := 256

/-- The routing state of a connection over messages of type `M`. `incoming` is
what the frame reader is going to return, in order: messages, or the failure
that closes it. -/
structure Connection (M : Type) where
  incoming : List (Except Error M)
  readerFailed : Bool
  writerFailed : Bool
  nextSerial : UInt32
  pending : List M
  pendingBytes : Nat
  abandonedReplies : Finset UInt32
  routingFailed : Bool

def Connection.new {M : Type} : Connection M := ⟨[], false, false, 1, [], 0, ∅, false⟩

def matchesReply (serial : UInt32) (message : Message) : Bool :=
  (message.kind = .methodReturn || message.kind = .error) && message.replySerial = some serial

section Routing

/- `view` reads the message of an `M`. With the identity this is the crate's own
connection; a type that also numbers the arrivals tells equal messages apart. -/
variable {M : Type} (view : M → Message)

def Connection.isUsable (connection : Connection M) : Bool :=
  !connection.routingFailed && !connection.readerFailed && !connection.writerFailed

def ensureUsable : Op (Connection M) Error Unit := do
  let connection ← get
  if connection.isUsable then pure () else fail .connectionUnusable

/-- The next message of the reader; `none` while there is none to read. -/
def readMessage : Op (Connection M) Error (Option M) := do
  ensureUsable
  let connection ← get
  match connection.incoming with
  | [] => pure none
  | .ok message :: rest => do
    set { connection with incoming := rest }
    pure (some message)
  | .error e :: rest => do
    set { connection with incoming := rest, readerFailed := true }
    fail e

variable (serial : UInt32)

def register : Op (Connection M) Error Unit := do
  let connection ← get
  if connection.abandonedReplies.card = maxAbandonedReplies then do
    set { connection with routingFailed := true }
    fail (.abandonedReplyQueueFull maxAbandonedReplies)
  else set { connection with abandonedReplies := insert serial connection.abandonedReplies }

variable (message : M)

def discardIfAbandonedReply : Op (Connection M) Error Bool := do
  match (view message).replySerial with
  | none => pure false
  | some serial => do
    let connection ← get
    set { connection with abandonedReplies := connection.abandonedReplies.erase serial }
    pure (decide (serial ∈ connection.abandonedReplies))

def removePending (index : Nat) : Op (Connection M) Error M := do
  let connection ← get
  let message ← expect connection.pending[index]?
  let pendingBytes ← subUsize connection.pendingBytes (view message).wireLen
  set { connection with pending := connection.pending.eraseIdx index, pendingBytes := pendingBytes }
  pure message

def popPending : Op (Connection M) Error (Option M) := do
  let connection ← get
  match connection.pending with
  | [] => pure none
  | message :: rest => do
    let pendingBytes ← subUsize connection.pendingBytes (view message).wireLen
    set { connection with pending := rest, pendingBytes := pendingBytes }
    pure (some message)

/-- The scan over the queue: `done` is what stands before the index. -/
def discardLoop : List M → List M → Op (Connection M) Error Unit
  | _, [] => pure ()
  | done, message :: rest => do
    if ← discardIfAbandonedReply view message then do
      let _ ← removePending view done.length
      discardLoop done rest
    else discardLoop (done ++ [message]) rest

def discardAbandonedPending : Op (Connection M) Error Unit := do
  let connection ← get
  if connection.abandonedReplies = ∅ then pure () else discardLoop view [] connection.pending

def queuePending : Op (Connection M) Error Unit := do
  let connection ← get
  if connection.pending.length = maxPendingMessages then do
    set { connection with routingFailed := true }
    fail (.pendingQueueFull maxPendingMessages)
  else
    match checkedAdd connection.pendingBytes (view message).wireLen with
    | none => do
      set { connection with routingFailed := true }
      fail (.pendingBytesFull maxPendingBytes)
    | some pendingBytes =>
      if pendingBytes > maxPendingBytes then do
        set { connection with routingFailed := true }
        fail (.pendingBytesFull maxPendingBytes)
      else set { connection with pendingBytes := pendingBytes, pending := connection.pending ++ [message] }

/-- The loop of `next_matching`. Every round that goes on has read a message. A
call that finds none to read waits; dropping it leaves the state as it is. -/
def nextMatchingLoop (predicate : Message → Bool) : Nat → Op (Connection M) Error (Option M)
  | 0 => throw .diverge
  | rounds + 1 => do
    discardAbandonedPending view
    let connection ← get
    match connection.pending.findIdx? fun message => predicate (view message) with
    | some index => some <$> removePending view index
    | none => do
      match ← readMessage with
      | none => pure none
      | some message => do
        if ← discardIfAbandonedReply view message then nextMatchingLoop predicate rounds
        else if predicate (view message) then pure (some message)
        else do
          queuePending view message
          nextMatchingLoop predicate rounds

def nextMatching (predicate : Message → Bool) : Op (Connection M) Error (Option M) := do
  ensureUsable
  let connection ← get
  nextMatchingLoop view predicate (connection.incoming.length + 1)

def receiveLoop : Nat → Op (Connection M) Error (Option M)
  | 0 => throw .diverge
  | rounds + 1 => do
    let queued ← popPending view
    let next ← match queued with
      | some message => pure (some message)
      | none => readMessage
    match next with
    | none => pure none
    | some message => do
      if ← discardIfAbandonedReply view message then receiveLoop rounds else pure (some message)

/-- The next queued or socket message. -/
def receiveMessage : Op (Connection M) Error (Option M) := do
  ensureUsable
  let connection ← get
  receiveLoop view (connection.pending.length + connection.incoming.length + 1)

def abandonReply : Op (Connection M) Error Unit := do
  ensureUsable
  let connection ← get
  match connection.pending.findIdx? fun message => matchesReply serial (view message) with
  | some index => do
    let _ ← removePending view index
    pure ()
  | none => register serial

def allocateSerial : Op (Connection M) Error UInt32 := do
  let connection ← get
  if connection.nextSerial = 0 then fail .serialExhausted
  else do
    set { connection with nextSerial := connection.nextSerial + 1 }
    pure connection.nextSerial

/-- How encoding and writing a message end: only a failure of the stream closes the writer. -/
inductive Written where
  | done
  | notEncoded (e : Error)
  | refused (e : Error)
  | failed (e : Error)

def sendCall (written : Written) : Op (Connection M) Error UInt32 := do
  let serial ← allocateSerial
  match written with
  | .notEncoded e => fail e
  | .done => do
    ensureUsable
    pure serial
  | .refused e => do
    ensureUsable
    fail e
  | .failed e => do
    ensureUsable
    let connection ← get
    set { connection with writerFailed := true }
    fail e

inductive Command (M : Type) where
  | arrive (item : Except Error M)
  | receive
  | nextMatching (predicate : Message → Bool)
  | sendCall (written : Written)
  | abandonReply (serial : UInt32)

inductive Reply (M : Type) where
  | done
  | waiting
  | delivered (message : M)
  | sent (serial : UInt32)
  | abandoned (serial : UInt32)

def deliver : Option M → Reply M
  | none => .waiting
  | some message => .delivered message

def exec : Command M → Op (Connection M) Error (Reply M)
  | .arrive item => do
    let connection ← get
    set { connection with incoming := connection.incoming ++ [item] }
    pure .done
  | .receive => deliver <$> receiveMessage view
  | .nextMatching predicate => deliver <$> nextMatching view predicate
  | .sendCall written => Reply.sent <$> sendCall written
  | .abandonReply serial => do
    abandonReply view serial
    pure (.abandoned serial)

end Routing

end TensorDE.Dbus
