import TensorDE.Lib.RingBuffer

namespace TensorDE.EventLayer

open TensorDE.RingBuffers

inductive Phase where
  | drain | input | protocol | session | scene | gpu | present | control | shutdown
deriving DecidableEq, Repr

def phaseOrder : List Phase :=
  [.drain, .input, .protocol, .session, .scene, .gpu, .present, .control, .shutdown]

/-- Coordinates are kept as the bits of the `f64`. -/
inductive InputEvent where
  | pointerMotion (x y : BitVec 64) (timeNs : Nat)
  | pointerButton (button : Nat) (pressed : Bool) (timeNs : Nat)
  | pointerAxis (horizontal vertical : BitVec 64) (timeNs : Nat)
  | keyboard (key : Nat) (pressed : Bool) (timeNs : Nat)
deriving DecidableEq, Repr

inductive OutputEvent where
  | connected (output : Nat)
  | changed (output : Nat)
  | disconnected (output : Nat)
  | vblank (output sequence : Nat)
deriving DecidableEq, Repr

structure GpuTimeline where
  output : Nat
  value : Nat
deriving DecidableEq, Repr

inductive LaunchOutcome where
  | started (request pid : Nat)
  | failed (request : Nat)
deriving DecidableEq, Repr

inductive Event where
  | input (event : InputEvent)
  | output (event : OutputEvent)
  | surfaceCommitted (surface : Nat) (view : Option Nat)
  | gpu (timeline : GpuTimeline)
  | ipc (command : Nat)
  | launch (outcome : LaunchOutcome)
  | timer (timer : Nat)
  | redrawAll
  | shutdown
deriving DecidableEq, Repr

namespace Event

def phase : Event → Phase
  | .input _ => .input
  | .surfaceCommitted .. => .protocol
  | .output (.connected _) | .output (.changed _) | .output (.disconnected _) => .session
  | .output (.vblank ..) => .present
  | .gpu _ => .gpu
  | .redrawAll => .scene
  | .ipc _ | .launch _ | .timer _ => .control
  | .shutdown => .shutdown

def coalescesWith (event newer : Event) : Bool :=
  match event, newer with
  | .input (.pointerMotion ..), .input (.pointerMotion ..) => true
  | .output (.vblank a _), .output (.vblank b _) => a = b
  | .gpu ⟨a, _⟩, .gpu ⟨b, _⟩ => a = b
  | .redrawAll, .redrawAll => true
  | _, _ => false

def isMotion : Event → Bool
  | .input (.pointerMotion ..) => true
  | _ => false

end Event

/-- An event in a ring. `serial` numbers the pushes; the queue does not keep it. -/
structure Stamped where
  event : Event
  serial : Nat
deriving DecidableEq, Repr

inductive PushResult where
  | queued | coalesced | dropped
deriving DecidableEq, Repr

def saturatingAdd (a b : Nat) : Nat := min (a + b) (2 ^ 64 - 1)

structure CoalesceStats where
  motionMerged : Nat
  vblankMerged : Nat
  gpuMerged : Nat
  redrawMerged : Nat
deriving DecidableEq, Repr

def CoalesceStats.record (stats : CoalesceStats) : Event → CoalesceStats
  | .input _ => { stats with motionMerged := saturatingAdd stats.motionMerged 1 }
  | .output _ => { stats with vblankMerged := saturatingAdd stats.vblankMerged 1 }
  | .gpu _ => { stats with gpuMerged := saturatingAdd stats.gpuMerged 1 }
  | .redrawAll => { stats with redrawMerged := saturatingAdd stats.redrawMerged 1 }
  | _ => stats

structure QueueStats where
  pushed : Nat
  coalesced : Nat
  dropped : Nat
  drained : Nat
  coalesce : CoalesceStats
deriving DecidableEq, Repr

abbrev PhaseRing := RingBuffer Stamped

namespace PhaseRing

variable (ring : PhaseRing)

def isFull : Bool := ring.len = ring.capacity

def coalesceAt (event : Stamped) (idx : Nat) : Option (Stamped × PhaseRing) :=
  match ring.buf[idx]? with
  | some (some existing) =>
    if existing.event.coalescesWith event.event then some (existing, ring.setSlot idx event) else none
  | _ => none

def tryCoalesce (event : Stamped) : Option (Stamped × PhaseRing) :=
  if ring.len = 0 then none
  else (List.range ring.len).findSome? fun offset =>
    coalesceAt ring event ((ring.head + ring.len - 1 - offset) % ring.capacity)

def pushBack (event : Stamped) : Bool × PhaseRing :=
  if isFull ring then (false, ring) else (true, ring.append event)

def popFront : Option Stamped × PhaseRing := if ring.len = 0 then (none, ring) else ring.takeFront

end PhaseRing

structure EventQueue where
  phases : Phase → PhaseRing
  stats : QueueStats

namespace EventQueue

def withPhaseCapacity (capacity : Nat) : EventQueue :=
  ⟨fun _ => RingBuffer.withCapacity capacity, ⟨0, 0, 0, 0, ⟨0, 0, 0, 0⟩⟩⟩

variable (q : EventQueue)

def setRing (phase : Phase) (ring : PhaseRing) : EventQueue :=
  { q with phases := Function.update q.phases phase ring }

def len (q : EventQueue) : Nat := (phaseOrder.map fun phase => (q.phases phase).len).sum

def push (event : Stamped) : PushResult × EventQueue :=
  let phase := event.event.phase
  match PhaseRing.tryCoalesce (q.phases phase) event with
  | some (previous, ring) =>
    (.coalesced, { q.setRing phase ring with
      stats := { q.stats with
        coalesced := saturatingAdd q.stats.coalesced 1
        coalesce := q.stats.coalesce.record previous.event } })
  | none =>
    match PhaseRing.pushBack (q.phases phase) event with
    | (true, ring) =>
      (.queued, { q.setRing phase ring with
        stats := { q.stats with pushed := saturatingAdd q.stats.pushed 1 } })
    | (false, ring) =>
      (.dropped, { q.setRing phase ring with
        stats := { q.stats with dropped := saturatingAdd q.stats.dropped 1 } })

def taken (phase : Phase) (ring : PhaseRing) : EventQueue :=
  { q.setRing phase ring with
    stats := { q.stats with drained := saturatingAdd q.stats.drained 1 } }

def popFrom (q : EventQueue) : List Phase → Option Stamped × EventQueue
  | [] => (none, q)
  | phase :: rest =>
    match PhaseRing.popFront (q.phases phase) with
    | (some event, ring) => (some event, q.taken phase ring)
    | (none, ring) => (q.setRing phase ring).popFrom rest

def pop : Option Stamped × EventQueue := q.popFrom phaseOrder

def drain (q : EventQueue) : Nat → List Stamped × EventQueue
  | 0 => ([], q)
  | max + 1 =>
    match q.pop with
    | (some event, next) => (event :: (next.drain max).1, (next.drain max).2)
    | (none, next) => ([], next)

def drainPhase (q : EventQueue) (phase : Phase) : Nat → List Stamped × EventQueue
  | 0 => ([], q)
  | max + 1 =>
    match PhaseRing.popFront (q.phases phase) with
    | (some event, ring) =>
      (event :: ((q.taken phase ring).drainPhase phase max).1, ((q.taken phase ring).drainPhase phase max).2)
    | (none, ring) => ([], q.setRing phase ring)

end EventQueue

/-- A call of `push`, with the number of the push whose event made room for the new one. -/
structure Push where
  event : Event
  result : PushResult
  replaced : Option Nat
deriving DecidableEq, Repr

/-- An event that a consumer has been given, after so many pushes. -/
structure Delivery where
  item : Stamped
  pushes : Nat
deriving DecidableEq, Repr

structure Session where
  queue : EventQueue
  pushes : List Push
  delivered : List Delivery

inductive Op where
  | push (event : Event)
  | pop
  | drain (max : Nat)
  | drainPhase (phase : Phase) (max : Nat)

namespace Session

variable (capacity : Nat)

def start : Session := ⟨.withPhaseCapacity capacity, [], []⟩

def push (s : Session) (event : Event) : Session :=
  let stamped : Stamped := ⟨event, s.pushes.length⟩
  let replaced := PhaseRing.tryCoalesce (s.queue.phases event.phase) stamped
  { s with
    queue := (s.queue.push stamped).2
    pushes := s.pushes ++ [⟨event, (s.queue.push stamped).1, replaced.map fun replaced => replaced.1.serial⟩] }

variable (s : Session)

def deliver (events : List Stamped) (queue : EventQueue) : Session :=
  { s with
    queue := queue
    delivered := s.delivered ++ events.map fun event => ⟨event, s.pushes.length⟩ }

def step : Op → Session
  | .push event => s.push event
  | .pop => s.deliver s.queue.pop.1.toList s.queue.pop.2
  | .drain max => s.deliver (s.queue.drain max).1 (s.queue.drain max).2
  | .drainPhase phase max => s.deliver (s.queue.drainPhase phase max).1 (s.queue.drainPhase phase max).2

def run (ops : List Op) : Session := ops.foldl step (start capacity)

end Session

end TensorDE.EventLayer
