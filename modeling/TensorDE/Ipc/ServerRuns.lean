import TensorDE.Ipc.Server
import TensorDE.Lib.Trace

set_option linter.dupNamespace false

namespace TensorDE.Ipc

open Codec Trace List

variable {β η : Type} {json : Json β η}

/-! What a log says. -/

def Output.isEvent : Output β η → Bool
  | .event _ _ => true
  | _ => false

def Output.reply? : Output β η → Option (IpcReply β)
  | .response reply _ _ => some reply
  | _ => none

def Output.subscribes : Output β η → Bool
  | .response _ _ subscribed => subscribed
  | _ => false

/-- The replies written on the connection, in their order. -/
def repliesOf (log : List (Output β η)) : List (IpcReply β) := log.filterMap Output.reply?

def Connection.responses (c : Connection β η) : List (IpcReply β) := repliesOf c.log

/-- The shutdown signal comes right after the responses that ask for it, and nowhere else. -/
inductive Signalled : List (Output β η) → Prop where
  | nil : Signalled []
  | event {e : η} {frame : Bytes} {log : List (Output β η)} : Signalled log → Signalled (.event e frame :: log)
  | response {reply : IpcReply β} {frame : Bytes} {subscribed : Bool} {log : List (Output β η)} :
    reply.stopAfterFlush = false → Signalled log → Signalled (.response reply frame subscribed :: log)
  | stop {reply : IpcReply β} {frame : Bytes} {subscribed : Bool} {log : List (Output β η)} :
    reply.stopAfterFlush = true → Signalled log → Signalled (.response reply frame subscribed :: .shutdownFlushed :: log)

/-- Only events follow an accepted subscription. -/
def OnlyEvents : List (Output β η) → Prop
  | [] => True
  | output :: log => (output.subscribes = true → ∀ later ∈ log, later.isEvent) ∧ OnlyEvents log

/-- The responses are those of the frames read so far that stand before the first
place where none does, in order and one for each; it does not matter in which
reads they came. -/
structure Answers (json : Json β η) (c : Connection β η) : Prop where
  responses : ∃ requests rest, Framed json.deserialize c.stream requests rest ∧
    (∀ request after, ¬Front json.deserialize rest request after) ∧
    c.responses.map IpcReply.requestId = requests.map Request.requestId
  signalled : Signalled c.log
  onlyEvents : OnlyEvents c.log

/-! The conditions. -/

def Fits (json : Json β η) (reply : IpcReply β) : Prop := (json.serialize (.response reply.response)).length ≤ maxFrameSize

/-- Whatever response the request gets, it fits in a frame. -/
structure FitsAll (json : Json β η) (request : Request) (submission : Submission β) : Prop where
  unavailable : Fits json (unavailableResponse request.requestId)
  queueFull : Fits json (queueFullResponse request.requestId)
  handled : ∀ handling subscription, submission = .queued (some handling) →
    Fits json (answer handling request subscription)

/-- The requests that a read completes, and whether it runs into a bad frame. -/
def Connection.decoded (json : Json β η) (c : Connection β η) (bytes : Bytes) : List Request × Except CodecError Bytes :=
  (frames json.deserialize).scan (c.decoder.buffer ++ bytes)

/-- The read does not complete requests before it runs into a bad frame, and every
response to a request of it fits in a frame. -/
def Connection.Spares (json : Json β η) (c : Connection β η) : Input β η → Prop
  | .read bytes answers => c.phase = .reading →
    (∀ e, (c.decoded json bytes).2 = .error e → (c.decoded json bytes).1 = []) ∧
    ∀ index request, (c.decoded json bytes).1[index]? = some request → FitsAll json request (answers index)
  | _ => True

/-! Logs put together. -/

section Log

variable {log more : List (Output β η)}

theorem repliesOf_append : repliesOf (log ++ more) = repliesOf log ++ repliesOf more := filterMap_append

theorem Signalled.append (h : Signalled log) (hmore : Signalled more) : Signalled (log ++ more) := by
  induction h with
  | nil => exact hmore
  | event _ ih => exact .event ih
  | response hstop _ ih => exact .response hstop ih
  | stop hstop _ ih => exact .stop hstop ih

theorem OnlyEvents.append_events (h : OnlyEvents log) (hmore : ∀ output ∈ more, output.isEvent) : OnlyEvents (log ++ more) := by
  induction log with
  | nil =>
    induction more with
    | nil => trivial
    | cons output more ih => grind -linarith [OnlyEvents]
  | cons output log ih => grind -linarith [OnlyEvents]

theorem OnlyEvents.append (h : ∀ output ∈ log, output.subscribes = false) (hmore : OnlyEvents more) :
    OnlyEvents (log ++ more) := by
  induction log with
  | nil => exact hmore
  | cons output log ih => grind -linarith [OnlyEvents]

end Log

/-! The pending replies of a read. -/

namespace PendingIpcReply

/-- Only the last one of a batch closes the connection or turns it into a stream. -/
def ends : PendingIpcReply β → Bool
  | compositor _ _ subscription => subscription
  | ready _ closeAfterFlush => closeAfterFlush

/-- Its reply belongs to its request, fits, and asks for no shutdown when it starts a stream. -/
structure Proper (json : Json β η) (pending : PendingIpcReply β) : Prop where
  unavailable : Fits json (unavailableResponse pending.requestId)
  resolved : ∀ reply close subscription, pending.resolve = .ok (reply, close, subscription) →
    reply.requestId = pending.requestId ∧ Fits json reply ∧ (subscription = true → reply.stopAfterFlush = false) ∧
      (close = true ∨ subscription = true → pending.ends = true)
  dropped : ∀ id, pending.resolve = .error id → id = pending.requestId

end PendingIpcReply

def EndsLast : List (PendingIpcReply β) → Prop
  | [] => True
  | pending :: rest => (pending.ends = true → rest = []) ∧ EndsLast rest

theorem handleIpcRequest_requestId (result : ResultBody β) (request : Request) :
    (handleIpcRequest result request).requestId = request.requestId := by
  unfold handleIpcRequest
  dsimp only
  split
  · rfl
  · split
    · split
      · rfl
      · split <;> rfl
    · rfl
    · rfl

theorem answer_requestId (handling : Handling β) (request : Request) (subscription : Bool) :
    (answer handling request subscription).requestId = request.requestId := by
  have hid := handleIpcRequest_requestId handling.result request
  unfold answer
  dsimp only
  split
  · split
    · split
      · exact hid
      · exact hid
    · exact hid
  · exact hid

theorem answer_stop {handling : Handling β} {request : Request} {subscription : Bool}
    (h : request.command.isSubscribe = true) : (answer handling request subscription).stopAfterFlush = false := by
  have hstop : (handleIpcRequest handling.result request).stopAfterFlush = false := by
    unfold handleIpcRequest
    dsimp only
    split
    · rfl
    · split
      · split
        · rfl
        · split <;> rfl
      · rename_i heq
        rw [heq] at h
        cases h
      · rfl
  unfold answer
  dsimp only
  split
  · split
    · split
      · exact hstop
      · rfl
    · rfl
  · exact hstop

theorem proper_unavailableReply {id : UInt64} {close : Bool} (h : Fits json (unavailableResponse id)) :
    (unavailableReply id close).Proper json where
  unavailable := h
  resolved reply close' subscription heq := by
    cases heq
    exact ⟨rfl, h, fun _ => rfl, fun hends => hends.resolve_right (by simp)⟩
  dropped id' heq := by cases heq

theorem proper_queueFull {id : UInt64} (hfull : Fits json (queueFullResponse id)) (h : Fits json (unavailableResponse id)) :
    (PendingIpcReply.ready (queueFullResponse id) false).Proper json where
  unavailable := h
  resolved reply close' subscription heq := by
    cases heq
    exact ⟨rfl, hfull, fun _ => rfl, fun hends => hends.resolve_right (by simp)⟩
  dropped id' heq := by cases heq

theorem proper_compositor {request : Request} {submission : Submission β} {handling : Option (Handling β)}
    {subscription : Bool} (hsubmission : submission = .queued handling) (h : FitsAll json request submission)
    (hsubscribe : subscription = true → request.command.isSubscribe = true) :
    (PendingIpcReply.compositor request.requestId (handling.map fun handling => answer handling request subscription)
      subscription).Proper json where
  unavailable := h.unavailable
  resolved reply close resolved heq := by
    cases handling with
    | none => cases heq
    | some handling =>
      cases heq
      exact ⟨answer_requestId _ _ _, h.handled handling subscription hsubmission,
        fun hsub => answer_stop (hsubscribe hsub), fun hends => hends.resolve_left (by simp)⟩
  dropped id heq := by
    cases handling with
    | none =>
      cases heq
      rfl
    | some handling => cases heq

theorem submit_spec (answers : Nat → Submission β) (boundary stopped : Bool) {count index : Nat} {requests : List Request}
    (hcount : index + requests.length = count)
    (hfits : ∀ i request, requests[i]? = some request → FitsAll json request (answers (index + i))) :
    (submit answers boundary count index stopped requests).map PendingIpcReply.requestId = requests.map Request.requestId ∧
      (∀ pending ∈ submit answers boundary count index stopped requests, pending.Proper json) ∧
      EndsLast (submit answers boundary count index stopped requests) := by
  induction requests generalizing index stopped with
  | nil => exact ⟨rfl, fun _ h => absurd h not_mem_nil, trivial⟩
  | cons request requests ih =>
    have hfit := hfits 0 request rfl
    have hlast : (index + 1 == count) = true → requests = [] := by
      intro heq
      have : index + 1 = count := by simpa using heq
      rw [length_cons] at hcount
      exact length_eq_zero_iff.mp (by omega)
    have hempty : ∀ stopped, requests = [] → submit answers boundary count (index + 1) stopped requests = [] := by
      rintro stopped rfl
      rfl
    have hrest : ∀ stopped, _ := fun stopped => @ih stopped (index + 1) (by rw [length_cons] at hcount; omega)
      fun i later hlater => by
        have := hfits (i + 1) later hlater
        grind
    have hcons : ∀ stopped pending, pending.requestId = request.requestId → pending.Proper json →
        (pending.ends = true → (index + 1 == count) = true) →
        (pending :: submit answers boundary count (index + 1) stopped requests).map PendingIpcReply.requestId =
          (request :: requests).map Request.requestId ∧
        (∀ p ∈ pending :: submit answers boundary count (index + 1) stopped requests, p.Proper json) ∧
        EndsLast (pending :: submit answers boundary count (index + 1) stopped requests) := by
      intro stopped pending hid hproper hends
      obtain ⟨hids, hall, hrestLast⟩ := hrest stopped
      refine ⟨?_, forall_mem_cons.mpr ⟨hproper, hall⟩, fun h => hempty stopped (hlast (hends h)), hrestLast⟩
      rw [map_cons, map_cons, hid, hids]
    unfold submit
    split
    · exact hcons true _ rfl (proper_unavailableReply hfit.unavailable) id
    · split
      · apply hcons false _ rfl
        · grind [proper_compositor]
        grind [PendingIpcReply.ends]
      · exact hcons false _ rfl (proper_queueFull hfit.queueFull hfit.unavailable) fun h => by cases h
      · exact hcons true _ rfl (proper_unavailableReply hfit.unavailable) id

theorem Proper.written {pending : PendingIpcReply β} (h : pending.Proper json) (stopped closesBatch : Bool) :
    (pending.resolved stopped closesBatch).reply.requestId = pending.requestId ∧
      Fits json (pending.resolved stopped closesBatch).reply ∧
      ((pending.resolved stopped closesBatch).subscription = true →
        (pending.resolved stopped closesBatch).reply.stopAfterFlush = false) ∧
      ((pending.resolved stopped closesBatch).closeAfterFlush = true ∨
        (pending.resolved stopped closesBatch).subscription = true → closesBatch = true ∨ pending.ends = true) := by
  have hunavailable : ∀ id, id = pending.requestId → Fits json (unavailableResponse id) := by
    rintro id rfl
    exact h.unavailable
  unfold PendingIpcReply.resolved
  split
  · exact ⟨rfl, h.unavailable, fun _ => rfl, fun hends => .inl (hends.resolve_right (by simp))⟩
  · split
    · grind -linarith [h.resolved]
    · rename_i id hresolve
      have hid := h.dropped id hresolve
      exact ⟨hid, hunavailable id hid, fun _ => rfl, fun hends => .inl (hends.resolve_right (by simp))⟩

theorem encodeInto_of_fits {reply : IpcReply β} (h : Fits json reply) :
    ∃ frame, encodeInto (json.serialize (.response reply.response)) = .ok frame := by
  refine ⟨_, if_neg ?_⟩
  unfold Fits at h
  omega

variable (reply : IpcReply β) (frame : Bytes) (subscribed : Bool)

theorem signalled_response :
    Signalled (.response reply frame subscribed :: notifyShutdownIfNeeded reply.stopAfterFlush : List (Output β η)) := by
  unfold notifyShutdownIfNeeded
  split
  · exact .stop ‹_› .nil
  · exact .response (Bool.eq_false_iff.mpr ‹_›) .nil

theorem repliesOf_response :
    repliesOf (.response reply frame subscribed :: notifyShutdownIfNeeded reply.stopAfterFlush : List (Output β η)) = [reply] := by
  unfold notifyShutdownIfNeeded
  split <;> rfl

/-- What a batch leaves in the log: one response for each request. -/
structure Delivered (ids : List UInt64) (r : List (Output β η) × Phase) : Prop where
  ids : (repliesOf r.1).map IpcReply.requestId = ids
  signalled : Signalled r.1
  onlyEvents : OnlyEvents r.1
  reading : r.2 = .reading → ∀ output ∈ r.1, output.subscribes = false

theorem subscribes_response {reply : IpcReply β} {frame : Bytes} {output : Output β η}
    (h : output ∈ .response reply frame false :: notifyShutdownIfNeeded reply.stopAfterFlush) : output.subscribes = false := by
  unfold notifyShutdownIfNeeded at h
  split at h
  · obtain rfl | rfl := mem_pair.mp h <;> rfl
  · obtain rfl := mem_singleton.mp h
    rfl

theorem Delivered.cons {ids : List UInt64} {r : List (Output β η) × Phase} (h : Delivered ids r) (reply : IpcReply β)
    (frame : Bytes) :
    Delivered (reply.requestId :: ids)
      (.response reply frame false :: notifyShutdownIfNeeded reply.stopAfterFlush ++ r.1, r.2) where
  ids := by
    rw [repliesOf_append, repliesOf_response, singleton_append, map_cons, h.ids]
  signalled := (signalled_response reply frame false).append h.signalled
  onlyEvents := OnlyEvents.append (fun _ hout => subscribes_response hout) h.onlyEvents
  reading hphase output hout := by
    grind [subscribes_response, h.reading]

theorem Delivered.last {reply : IpcReply β} {frame : Bytes} {subscribed : Bool} {phase : Phase}
    (hstop : subscribed = true → reply.stopAfterFlush = false) (hphase : phase ≠ .reading) :
    Delivered [reply.requestId]
      ((.response reply frame subscribed :: notifyShutdownIfNeeded reply.stopAfterFlush : List (Output β η)), phase) where
  ids := by rw [repliesOf_response, map_singleton]
  signalled := signalled_response reply frame subscribed
  onlyEvents := by
    cases subscribed with
    | false => exact (append_nil _).subst (OnlyEvents.append (fun _ hout => subscribes_response hout) trivial)
    | true =>
      rw [hstop rfl]
      exact ⟨fun _ _ h => absurd h not_mem_nil, trivial⟩
  reading heq := absurd heq hphase

theorem delivered_flush (stopped subscribed : Bool) {count index : Nat} {pending : List (PendingIpcReply β)}
    (hcount : index + pending.length = count) (hproper : ∀ p ∈ pending, p.Proper json) (hlast : EndsLast pending) :
    Delivered (pending.map PendingIpcReply.requestId) (flush json count index stopped subscribed pending) := by
  induction pending generalizing index stopped subscribed with
  | nil => exact ⟨rfl, .nil, trivial, fun _ _ h => absurd h not_mem_nil⟩
  | cons p pending ih =>
    obtain ⟨hid, hfits, hstop, hends⟩ := Proper.written (hproper p mem_cons_self) stopped (index + 1 == count)
    obtain ⟨frame, hframe⟩ := encodeInto_of_fits hfits
    have hempty : (p.resolved stopped (index + 1 == count)).closeAfterFlush = true ∨
        (p.resolved stopped (index + 1 == count)).subscription = true → pending = [] := by
      intro hend
      obtain hclose | hend := hends hend
      · have : index + 1 = count := by simpa using hclose
        rw [length_cons] at hcount
        exact length_eq_zero_iff.mp (by omega)
      · exact hlast.1 hend
    rw [flush]
    generalize p.resolved stopped (index + 1 == count) = resolved at *
    rw [hframe, map_cons, ← hid]
    dsimp only
    split
    · grind -linarith [Delivered.last]
    · by_cases hstream : (resolved.reply.isAccepted && resolved.subscription) = true
      · grind -linarith [flush, Delivered.last]
      · rw [Bool.eq_false_iff.mpr hstream]
        refine Delivered.cons (ih _ _ ?_ ?_ hlast.2) resolved.reply frame
        · rw [length_cons] at hcount
          omega
        grind -linarith

/-! The connection. -/

/-- Every request read so far has its response, and the decoder keeps what follows them. -/
structure Sound (json : Json β η) (c : Connection β η) : Prop where
  ids : c.responses.map IpcReply.requestId = ((frames json.deserialize).scan c.stream).1.map Request.requestId
  signalled : Signalled c.log
  onlyEvents : OnlyEvents c.log
  reading : c.phase = .reading → ((frames json.deserialize).scan c.stream).2 = .ok c.decoder.buffer ∧
    ∀ output ∈ c.log, output.subscribes = false

theorem Sound.answers {c : Connection β η} (h : Sound json c) : Answers json c := by
  obtain ⟨rest, hframed, hrest⟩ := framed_scan json.deserialize c.stream
  exact ⟨⟨_, rest, hframed, hrest, h.ids⟩, h.signalled, h.onlyEvents⟩

theorem sound_accepted : Sound json Connection.accepted where
  ids := by
    rw [show ((frames json.deserialize).scan (Connection.accepted : Connection β η).stream) = ([], .ok []) from
      Framing.scan_need rfl]
    rfl
  signalled := .nil
  onlyEvents := trivial
  reading _ := ⟨by
    rw [show ((frames json.deserialize).scan (Connection.accepted : Connection β η).stream) = ([], .ok []) from
      Framing.scan_need rfl]
    rfl, fun _ h => absurd h not_mem_nil⟩

theorem Sound.close {c : Connection β η} (h : Sound json c) : Sound json c.close :=
  ⟨h.ids, h.signalled, h.onlyEvents, fun heq => by cases heq⟩

theorem Sound.event {c : Connection β η} (h : Sound json c) (hphase : c.phase = .streaming) (e : η) (frame : Bytes) :
    Sound json { c with log := c.log ++ [.event e frame] } where
  ids := by
    have hreplies : repliesOf (c.log ++ [.event e frame]) = repliesOf c.log := by
      rw [repliesOf_append]
      exact append_nil _
    change (repliesOf (c.log ++ [.event e frame])).map _ = _
    rw [hreplies]
    exact h.ids
  signalled := h.signalled.append (.event .nil)
  onlyEvents := h.onlyEvents.append_events fun output hout => by
    rw [mem_singleton.mp hout]
    rfl
  reading heq := by
    grind

theorem read_error {c : Connection β η} {bytes : Bytes} {answers : Nat → Submission β} {e : CodecError}
    (h : (c.decoded json bytes).2 = .error e) : c.read json bytes answers =
      ⟨.closed, ⟨c.decoder.buffer ++ bytes⟩, c.log, c.stream ++ bytes⟩ := by
  grind [Connection.decoded, Connection.read, FrameDecoder.pushInto]

/-- Requests that a read completes in front of a bad frame are never answered. -/
theorem read_spoiled {c : Connection β η} (h : Sound json c) (hphase : c.phase = .reading) {bytes : Bytes}
    {answers : Nat → Submission β} {e : CodecError} (hbad : (c.decoded json bytes).2 = .error e)
    (hrequests : (c.decoded json bytes).1 ≠ []) : ¬Answers json (c.read json bytes answers) := by
  intro hanswers
  obtain ⟨requests, rest, hframed, hnone, hids⟩ := hanswers.responses
  have hall := hframed.scan
  rw [scan_no_front hnone, append_nil] at hall
  rw [read_error hbad] at hall hids
  change c.responses.map _ = _ at hids
  rw [Framing.scan_append (h.reading hphase).1] at hall
  rw [← hall, h.ids, map_append] at hids
  exact hrequests (map_eq_nil_iff.mp (self_eq_append_right.mp hids))

theorem Sound.read {c : Connection β η} (h : Sound json c) (hphase : c.phase = .reading) {bytes : Bytes}
    {answers : Nat → Submission β} (hspares : c.Spares json (.read bytes answers)) :
    Sound json (c.read json bytes answers) := by
  obtain ⟨hbuffer, hquiet⟩ := h.reading hphase
  obtain ⟨hbad, hfits⟩ := hspares hphase
  have hscan := Framing.scan_append hbuffer bytes
  unfold Connection.decoded at hbad hfits
  unfold Connection.read FrameDecoder.pushInto
  dsimp only
  generalize hdecoded : (frames json.deserialize).scan (c.decoder.buffer ++ bytes) = decoded at *
  obtain ⟨requests, stop⟩ := decoded
  cases stop with
  | error e =>
    obtain rfl : requests = [] := hbad e rfl
    refine ⟨?_, h.signalled, h.onlyEvents, fun heq => by cases heq⟩
    rw [hscan, append_nil]
    exact h.ids
  | ok rest =>
    obtain ⟨hids, hproper, hlast⟩ := submit_spec answers (FrameDecoder.bufferedBytes ⟨rest⟩ == 0) false
      (Nat.zero_add requests.length) fun i request hrequest => by
        rw [Nat.zero_add]
        exact hfits i request hrequest
    have hdelivered := delivered_flush false false (Nat.zero_add _) hproper hlast
    refine ⟨?_, h.signalled.append hdelivered.signalled, OnlyEvents.append hquiet hdelivered.onlyEvents, fun heq => ⟨?_, ?_⟩⟩
    · change (repliesOf (c.log ++ _)).map _ = _
      rw [repliesOf_append, map_append, hdelivered.ids, hids, hscan, map_append]
      exact congrArg (· ++ _) h.ids
    · rw [hscan]
    grind [hdelivered.reading]

theorem step_sound {c c' : Connection β η} {input : Input β η} (h : Sound json c) (hspares : c.Spares json input)
    (hstep : c.step json input = some c') : Sound json c' := by
  cases input with
  | read bytes answers => grind [Connection.step, h.close, h.read]
  | readFailed => grind [Connection.step, h.close]
  | event e => grind [Connection.step, h.close, h.event]
  | eventsEnded => grind [Connection.step, h.close]

def Connection.Steps (json : Json β η) (c : Connection β η) (input : Input β η) (c' : Connection β η) : Prop :=
  c.step json input = some c' ∧ c.Spares json input

/-- In a run whose reads never complete requests in front of a bad frame, and
whose responses fit in their frames, every request is answered once and in order. -/
theorem requests_answered_in_order {inputs : List (Input β η)} {c : Connection β η}
    (h : Run (Connection.Steps json) Connection.accepted inputs c) : Answers json c :=
  (h.invariant (P := Sound json) (Q := fun _ => True) (fun _ _ _ hs _ hstep => step_sound hs hstep.2 hstep.1)
    sound_accepted fun _ _ => trivial).answers

/-! A ping, alone and in front of a frame that is no request. -/

def pingPayload : Bytes :=
  Bytes.ofAscii "\x7b\"version\":8,\"request_id\":1,\"command\":\x7b\"type\":\"ping\"\x7d\x7d"

def pingRequest : Request := ⟨8, 1, .other⟩

def resultText : ResultBody Unit → Bytes
  | .accepted => Bytes.ofAscii "\x7b\"type\":\"accepted\"\x7d"
  | .error code message =>
    Bytes.ofAscii "\x7b\"type\":\"error\",\"code\":\"" ++ Bytes.ofAscii code ++
      Bytes.ofAscii "\",\"message\":\"" ++ Bytes.ofAscii message ++ Bytes.ofAscii "\"\x7d"
  | .other () => Bytes.ofAscii "\x7b\"type\":\"pong\"\x7d"

def messageText : ServerMessage Unit Empty → Bytes
  | .response response =>
    Bytes.ofAscii "\x7b\"kind\":\"response\",\"body\":\x7b\"version\":8,\"request_id\":" ++
      (Nat.toDigits 10 response.requestId.toNat).map (fun digit => digit.toNat.toUInt8) ++
      Bytes.ofAscii ",\"result\":" ++ resultText response.result ++ Bytes.ofAscii "\x7d\x7d"
  | .event event => event.elim

def pingJson : Json Unit Empty where
  deserialize payload := if payload = pingPayload then some pingRequest else none
  serialize := messageText

def pingFrame : Bytes := toLe 4 pingPayload.length ++ pingPayload

variable (rest : Bytes)

theorem front_ping : Front pingJson.deserialize (pingFrame ++ rest) pingRequest rest := by
  have hlength : ¬ pingPayload.length > maxFrameSize := by decide +kernel
  have hframe : encodeInto pingPayload = .ok pingFrame := if_neg hlength
  have hparse : pingJson.deserialize pingPayload = some pingRequest := by
    change (if pingPayload = pingPayload then some pingRequest else none) = _
    exact if_pos rfl
  exact front_encodeInto hframe hparse rest

theorem decoded_ping : (Connection.accepted : Connection Unit Empty).decoded pingJson (pingFrame ++ rest) =
    (pingRequest :: ((frames pingJson.deserialize).scan rest).1, ((frames pingJson.deserialize).scan rest).2) :=
  scan_front (front_ping rest)

def pongs : Nat → Submission Unit := fun _ => .queued (some ⟨.other (), true⟩)

theorem requests_answered_in_order_ping : Answers pingJson (Connection.accepted.read pingJson (pingFrame ++ []) pongs) := by
  have hdecoded := decoded_ping []
  rw [show (frames pingJson.deserialize).scan [] = ([], .ok []) from Framing.scan_need rfl] at hdecoded
  have hspares : (Connection.accepted : Connection Unit Empty).Spares pingJson (.read (pingFrame ++ []) pongs) := by
    refine fun _ => ⟨fun e heq => ?_, fun index request hrequest => ?_⟩
    · rw [hdecoded] at heq
      cases heq
    · rw [hdecoded] at hrequest
      cases index with
      | zero =>
        cases hrequest
        refine ⟨by unfold Fits; decide +kernel, by unfold Fits; decide +kernel, fun handling subscription heq => ?_⟩
        cases heq
        cases subscription <;> unfold Fits <;> decide +kernel
      | succ index => cases hrequest
  exact requests_answered_in_order (.cons ⟨rfl, hspares⟩ (.nil _))

def malformedFrame : Bytes := [1, 0, 0, 0, 0x7b]

/-- In one read with a malformed frame behind it, the ping gets no response. -/
theorem ping_dropped_before_malformed_frame :
    ∃ c : Connection Unit Empty, Run (fun c input c' => c.step pingJson input = some c') Connection.accepted
      [.read (pingFrame ++ malformedFrame) pongs] c ∧ c.log = [] ∧ ¬Answers pingJson c := by
  have hdecoded := decoded_ping malformedFrame
  rw [show (frames pingJson.deserialize).scan malformedFrame = ([], .error .deserialize) from Framing.scan_bad rfl] at hdecoded
  have hbad : ((Connection.accepted : Connection Unit Empty).decoded pingJson (pingFrame ++ malformedFrame)).2 =
      .error .deserialize := by rw [hdecoded]
  refine ⟨_, .cons rfl (.nil _), ?_, read_spoiled sound_accepted rfl hbad ?_⟩
  · grind [Connection.accepted, malformedFrame, read_error]
  · rw [hdecoded]
    exact cons_ne_nil _ _

end TensorDE.Ipc
