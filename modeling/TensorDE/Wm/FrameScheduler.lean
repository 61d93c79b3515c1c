import TensorDE.Renderer.DescriptorHeap
import TensorDE.Wm.World

set_option linter.dupNamespace false

namespace TensorDE.Wm

open Effect Maps Renderer

structure RenderOutputId where
  deviceId : UInt64
  connectorId : UInt32
deriving DecidableEq

structure OutputFormat where
  code : UInt32
  modifier : UInt64
  planeCount : UInt32
deriving DecidableEq

structure NativeOutputTarget where
  output : RenderOutputId
  viewport : Rect
  format : OutputFormat
  scale : UInt32
deriving DecidableEq

structure HeapAllocation where
  (offset size : Nat)
deriving DecidableEq

inductive FrameError where
  | descriptorHeapTooSmall (capacity reserved : Nat)
  | invalidDescriptorAlignment (alignment : Nat)
  | invalidDescriptorSize
  | descriptorSizeOverflow
  | descriptorHeapExhausted (requested capacity : Nat)
  | descriptorAllocator (error : DescriptorHeapError)
  | unknownOutput (output : RenderOutputId)
  | outputBusy (output : RenderOutputId) (waitingFor : UInt64)
  | stalePreparedFrame (output : RenderOutputId) (timelineValue : UInt64)
  | invalidViewport (viewport : Rect)
  | implicitOutputModifier (output : RenderOutputId)
  | invalidOutputPlaneCount (output : RenderOutputId)
  /-- Why no draw plan can be built for the scene. -/
  | unsupportedColor (reason : String)
  | invalidTimelineValue
  | serialExhausted
  | deviceLost
deriving DecidableEq

structure DrawPlan (Overlay : Type) where
  images : Nat
  cursors : List Overlay

/-- How a frame is planned from a scene and what an image is believed to hold. -/
structure Planner (Scene Overlay Capture Damage : Type) where
  buildWithCursors : Scene → NativeOutputTarget → List Overlay → Except FrameError (DrawPlan Overlay)
  /-- Scene and cursor damage since an earlier scene and its cursors. -/
  damage : Scene → Option Scene → List Overlay → List Overlay → NativeOutputTarget → Damage
  captureExclusion : Damage → Capture → List Overlay → List Overlay → NativeOutputTarget → Damage
  intermediateDescriptors : Scene → NativeOutputTarget → Damage → UInt32

structure FrameSubmission (Scene Overlay Damage : Type) where
  target : NativeOutputTarget
  outputSlot : Fin 3
  serial : Nat
  timelineValue : UInt64
  scene : Scene
  damage : Damage
  renderDamage : Damage
  descriptors : HeapAllocation
  clientImageDescriptors : Nat
  cursors : List Overlay

structure OutputSlotHistory (Scene Overlay : Type) where
  scene : Option Scene
  cursors : List Overlay

def OutputSlotHistory.new {Scene Overlay : Type} : OutputSlotHistory Scene Overlay := ⟨none, []⟩

structure PreparedFrameState where
  timelineValue : UInt64
  serial : Nat
  outputSlot : Fin 3
  descriptors : HeapAllocation
  allocation : DescriptorAllocation
deriving DecidableEq

structure OutputFrameState (Scene Overlay : Type) where
  target : NativeOutputTarget
  previousScene : Option Scene
  previousCursors : List Overlay
  slotHistory : Fin 3 → OutputSlotHistory Scene Overlay
  nextSerial : Nat
  lastSubmittedTimeline : UInt64
  inFlight : Bool
  nextSlot : Fin 3
  prepared : Option PreparedFrameState

structure FrameScheduler (Scene Overlay : Type) where
  descriptors : DescriptorHeapAllocatorState
  outputs : Map RenderOutputId (OutputFrameState Scene Overlay)
  deviceLost : Bool
  descriptorStride : UInt64
  descriptorAlignment : UInt64

section Scheduler

variable {Scene Overlay Capture Damage α : Type}

def PreparedFrameState.isFor (prepared : PreparedFrameState) (frame : FrameSubmission Scene Overlay Damage) : Bool :=
  prepared.timelineValue == frame.timelineValue && prepared.serial == frame.serial &&
    prepared.outputSlot == frame.outputSlot && prepared.descriptors == frame.descriptors

def OutputFrameState.new (target : NativeOutputTarget) : OutputFrameState Scene Overlay :=
  ⟨target, none, [], fun _ => .new, 1, 0, false, 0, none⟩

def OutputFrameState.clearSlotHistory (state : OutputFrameState Scene Overlay) : OutputFrameState Scene Overlay :=
  { state with slotHistory := fun _ => .new }

/-- A new target forgets what the images held, not what the GPU still works on. -/
def OutputFrameState.setTarget (target : NativeOutputTarget) (state : OutputFrameState Scene Overlay) :
    OutputFrameState Scene Overlay :=
  { state.clearSlotHistory with target, previousScene := none, previousCursors := [], nextSlot := 0 }

def frameAllocatorError : DescriptorHeapError → FrameError
  | .invalidAlignment alignment => .invalidDescriptorAlignment alignment
  | .reservedRangeConsumesHeap heapSize minimumReservedRange _ => .descriptorHeapTooSmall heapSize minimumReservedRange
  | other => .descriptorAllocator other

def frameAllocationError (capacity : Nat) : DescriptorHeapError → FrameError
  | .outOfMemory requested _ => .descriptorHeapExhausted requested capacity
  | other => frameAllocatorError other

namespace FrameScheduler

abbrev Call (Scene Overlay α : Type) := Op (FrameScheduler Scene Overlay) FrameError α

def withDescriptorAllocator (descriptors : DescriptorHeapAllocatorState) (descriptorStride descriptorAlignment : UInt64) :
    Except FrameError (FrameScheduler Scene Overlay) :=
  if descriptorStride = 0 then .error .invalidDescriptorSize
  else if ¬descriptorAlignment.toNat.isPowerOfTwo then .error (.invalidDescriptorAlignment descriptorAlignment.toNat)
  else if ¬descriptorAlignment.toNat ∣ descriptorStride.toNat then
    .error (.invalidDescriptorAlignment descriptorAlignment.toNat)
  else .ok ⟨descriptors, .empty, false, descriptorStride, descriptorAlignment⟩

/-- A call on the shared allocator, its errors turned into those of a frame. -/
def onDescriptors (wrap : DescriptorHeapError → FrameError) (call : Op DescriptorHeapAllocatorState DescriptorHeapError α) :
    Call Scene Overlay α := fun s =>
  match call s.descriptors with
  | .ok a descriptors => .ok a { s with descriptors }
  | .error (.error e) descriptors => .error (.error (wrap e)) { s with descriptors }
  | .error .panic descriptors => .error .panic { s with descriptors }
  | .error .diverge descriptors => .error .diverge { s with descriptors }

variable (output : RenderOutputId)

def setOutput (state : OutputFrameState Scene Overlay) : Call Scene Overlay Unit :=
  modify fun s => { s with outputs := s.outputs.insert output state }

def registerOutput (target : NativeOutputTarget) : Call Scene Overlay Unit := do
  if target.viewport.width = 0 ∨ target.viewport.height = 0 then fail (.invalidViewport target.viewport)
  else if target.format.modifier = UInt64.ofNat (2 ^ 64 - 1) then fail (.implicitOutputModifier target.output)
  else if target.format.planeCount = 0 then fail (.invalidOutputPlaneCount target.output)
  else do
    let s ← get
    match s.outputs.find target.output with
    | none => setOutput target.output (.new target)
    | some state =>
      if state.target = target then pure ()
      else
        match state.prepared with
        | some prepared => fail (.outputBusy target.output prepared.timelineValue)
        | none => setOutput target.output (state.setTarget target)

/-- `let _ = call`. -/
def ignoreError (call : Call Scene Overlay Unit) : Call Scene Overlay Unit := fun s =>
  match call s with
  | .error (.error _) t => .ok () t
  | result => result

def unregisterOutput : Call Scene Overlay Unit := do
  let s ← get
  match s.outputs.find output with
  | none => pure ()
  | some state =>
    set { s with outputs := s.outputs.erase output }
    match state.prepared with
    | none => pure ()
    | some prepared =>
      ignoreError (onDescriptors frameAllocatorError (DescriptorHeapAllocator.release prepared.allocation))

variable (s : FrameScheduler Scene Overlay)

/-- An output that neither a prepared frame nor GPU work holds back. -/
def idleOutput (output : RenderOutputId) : Option (OutputFrameState Scene Overlay) :=
  (s.outputs.find output).filter fun state => !s.deviceLost && state.prepared.isNone && !state.inFlight

def nextOutputSlot (output : RenderOutputId) : Option (Fin 3) :=
  (s.idleOutput output).map (·.nextSlot)

def advanceOutputSlot : Call Scene Overlay (Option (Fin 3)) := do
  let s ← get
  match s.idleOutput output with
  | none => pure none
  | some state =>
    setOutput output { state with nextSlot := state.nextSlot + 1 }
    pure (some (state.nextSlot + 1))

def checkedMul (a b : Nat) : Option Nat := if a * b < 2 ^ 64 then some (a * b) else none

/-- How many bytes a frame needs: one descriptor, one for each client image, and those of the passes. -/
def descriptorBytes (stride : UInt64) (clientImageDescriptors : Nat) (intermediates : UInt32) : Option Nat := do
  let count ← checkedAdd 1 clientImageDescriptors
  let count ← checkedAdd count intermediates.toNat
  checkedMul stride.toNat count

def prepareWithCursorsForTimeline (planner : Planner Scene Overlay Capture Damage) (output : RenderOutputId) (scene : Scene)
    (overlays : List Overlay) (capture : Option Capture) (completedTimeline timelineValue : UInt64) :
    Call Scene Overlay (FrameSubmission Scene Overlay Damage) := do
  if timelineValue = 0 then fail .invalidTimelineValue
  else do
    let s ← get
    if s.deviceLost then fail .deviceLost
    else do
      let descriptorCapacity := s.descriptors.reservedRangeOffset
      let state ← okOr (s.outputs.find output) (.unknownOutput output)
      match state.prepared with
      | some prepared => fail (.outputBusy output prepared.timelineValue)
      | none =>
        if state.inFlight = true ∧ completedTimeline < state.lastSubmittedTimeline then
          fail (.outputBusy output state.lastSubmittedTimeline)
        else do
          let _ ← onDescriptors frameAllocatorError (DescriptorHeapAllocator.reclaim completedTimeline)
          let serial := state.nextSerial
          let _ ← okOr (checkedAdd serial 1) .serialExhausted
          match planner.buildWithCursors scene state.target overlays with
          | .error e => fail e
          | .ok drawPlan =>
            if drawPlan.images ≥ 2 ^ 32 then fail .descriptorSizeOverflow
            else do
              let damage := planner.damage scene state.previousScene state.previousCursors drawPlan.cursors state.target
              let outputSlot := state.nextSlot
              let slot := state.slotHistory outputSlot
              let renderDamage := planner.damage scene slot.scene slot.cursors drawPlan.cursors state.target
              let renderDamage := match capture with
                | none => renderDamage
                | some capture => planner.captureExclusion renderDamage capture slot.cursors drawPlan.cursors state.target
              let intermediates := planner.intermediateDescriptors scene state.target renderDamage
              let bytes ← okOr (descriptorBytes s.descriptorStride drawPlan.images intermediates) .descriptorSizeOverflow
              let allocation ← onDescriptors (frameAllocationError descriptorCapacity)
                (DescriptorHeapAllocator.allocate (UInt64.ofNat bytes) s.descriptorAlignment)
              let descriptors := ⟨allocation.range.start, allocation.range.size⟩
              setOutput output { state with prepared := some ⟨timelineValue, serial, outputSlot, descriptors, allocation⟩ }
              pure ⟨state.target, outputSlot, serial, timelineValue, scene, damage, renderDamage, descriptors,
                drawPlan.images, drawPlan.cursors⟩

variable (frame : FrameSubmission Scene Overlay Damage)

def takePrepared :
    Call Scene Overlay (OutputFrameState Scene Overlay × PreparedFrameState) := do
  let s ← get
  let state ← okOr (s.outputs.find frame.target.output) (.unknownOutput frame.target.output)
  match state.prepared with
  | none => fail (.stalePreparedFrame frame.target.output frame.timelineValue)
  | some prepared =>
    if prepared.isFor frame then do
      setOutput frame.target.output { state with prepared := none }
      pure ({ state with prepared := none }, prepared)
    else fail (.stalePreparedFrame frame.target.output frame.timelineValue)

def commit : Call Scene Overlay Unit := do
  let s ← get
  let descriptorCapacity := s.descriptors.reservedRangeOffset
  let (state, prepared) ← takePrepared frame
  onDescriptors (frameAllocationError descriptorCapacity)
    (DescriptorHeapAllocator.retireAtTimeline prepared.allocation prepared.timelineValue)
  setOutput frame.target.output { state with nextSlot := prepared.outputSlot + 1 }
  let nextSerial ← okOr (checkedAdd prepared.serial 1) .serialExhausted
  setOutput frame.target.output {
    state with
    nextSlot := prepared.outputSlot + 1
    nextSerial
    previousScene := some frame.scene
    previousCursors := frame.cursors
    slotHistory := Function.update state.slotHistory prepared.outputSlot ⟨some frame.scene, frame.cursors⟩
    lastSubmittedTimeline := prepared.timelineValue
    inFlight := true }

def abort : Call Scene Overlay Unit := do
  let s ← get
  let descriptorCapacity := s.descriptors.reservedRangeOffset
  let (_, prepared) ← takePrepared frame
  onDescriptors (frameAllocationError descriptorCapacity) (DescriptorHeapAllocator.release prepared.allocation)

variable (timelineValue : UInt64)

def OutputFrameState.retire (state : OutputFrameState Scene Overlay) :
    OutputFrameState Scene Overlay :=
  if state.inFlight = true ∧ state.lastSubmittedTimeline ≤ timelineValue then { state with inFlight := false } else state

def retireCompleted : Call Scene Overlay Unit := do
  modify fun s => { s with outputs := s.outputs.mapValues fun _ state => OutputFrameState.retire timelineValue state }
  let _ ← onDescriptors frameAllocatorError (DescriptorHeapAllocator.reclaim timelineValue)

def markDeviceLost : Call Scene Overlay Unit := modify fun s => { s with deviceLost := true }

end FrameScheduler

end Scheduler

end TensorDE.Wm
