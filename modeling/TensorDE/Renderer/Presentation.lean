import TensorDE.Renderer.Error

set_option linter.dupNamespace false

namespace TensorDE.Renderer

open Effect

inductive PresentationTarget where
  | directSurface
  | offscreen
deriving DecidableEq

inductive SurfaceAcquireStrategy where
  | beforeFrame
  | afterOffscreenSubmit
deriving DecidableEq

/-- A plan as `compile` lets it through: late acquire is for offscreen frames only. -/
structure PresentationPathPlan where
  target : PresentationTarget
  acquire : SurfaceAcquireStrategy
  frameSlots : Nat
  offscreen_of_late : acquire = .afterOffscreenSubmit → target = .offscreen

inductive PresentationTransactionStep where
  | submitOffscreen
  | acquireSurface
  | recordDirectSurface
  | recordTerminalSurface
  | submitDirectSurface
  | submitOffscreenAndTerminal
  | submitTerminal
  | present
deriving DecidableEq

variable (plan : PresentationPathPlan)

/-- `PresentationTransactionSchedule::compile`. -/
def PresentationPathPlan.schedule : List PresentationTransactionStep :=
  match plan.acquire, plan.target with
  | .beforeFrame, .directSurface => [.acquireSurface, .recordDirectSurface, .submitDirectSurface, .present]
  | .beforeFrame, .offscreen => [.acquireSurface, .recordTerminalSurface, .submitOffscreenAndTerminal, .present]
  | .afterOffscreenSubmit, _ =>
    [.submitOffscreen, .acquireSurface, .recordTerminalSurface, .submitTerminal, .present]

namespace PresentationPathPlan

variable (plan : PresentationPathPlan)

def recordStep : PresentationTransactionStep :=
  match plan.target with
  | .directSurface => .recordDirectSurface
  | .offscreen => .recordTerminalSurface

def submitStep : PresentationTransactionStep :=
  match plan.acquire, plan.target with
  | .beforeFrame, .directSurface => .submitDirectSurface
  | .beforeFrame, .offscreen => .submitOffscreenAndTerminal
  | .afterOffscreenSubmit, _ => .submitTerminal

end PresentationPathPlan

inductive PresentationTransactionPhase where
  | ready
  | offscreenSubmitted
  | surfaceAcquired
  | surfaceRecorded
  | surfaceSubmitted
  | presented
  | poisoned
deriving DecidableEq

/-- A device is known by a number, and so is each object of it. -/
structure BinarySemaphore where
  owner : Nat
  raw : Nat
deriving DecidableEq

structure CommandBuffer where
  owner : Nat

structure FrameSlotSync where
  acquire : BinarySemaphore
  lastSubmission : Option Nat

inductive SurfaceImageState where
  | undefined
  | presented
deriving DecidableEq

structure Swapchain where
  owner : Nat
  raw : Nat
  images : Nat

inductive PresentStatus where
  | optimal
  | suboptimal
deriving DecidableEq

structure PresentationTransaction where
  owner : Nat
  swapchain : Nat
  plan : PresentationPathPlan
  frameSlots : List FrameSlotSync
  presentSignals : List BinarySemaphore
  imageStates : List SurfaceImageState
  phase : PresentationTransactionPhase

/-- The range of commands that uses the decoded frames. -/
inductive PresentationDependencyScope where
  | independentCommands
  | surfaceCommands
deriving DecidableEq

structure DecodedVideoFrame where
  yPlaneOwner : Nat
  uvPlaneOwner : Nat
  ready : Nat
  readyValue : Nat

structure SemaphoreWait where
  semaphore : Nat
  value : Nat

structure PresentationFrameDependencies where
  decodedVideoFrames : List DecodedVideoFrame
  scope : PresentationDependencyScope

def PresentationPathPlan.surfaceScope (dependencies : PresentationFrameDependencies) :
    PresentationDependencyScope :=
  if plan.acquire = .afterOffscreenSubmit then .surfaceCommands else dependencies.scope

structure PresentTransactionOutcome where
  imageIndex : Nat
  acquireStatus : PresentStatus
  presentStatus : PresentStatus
  offscreenSubmission : Option Nat
  surfaceSubmission : Nat

/-- What a call did that others can see. An acquire is kept with the completed timeline at that moment. -/
inductive Happening where
  | submitted (step : PresentationTransactionStep) (slot value : Nat)
  | acquiring (slot : Nat) (semaphore : BinarySemaphore) (completed : Nat)
  | acquired (index : Nat)
  | recorded (step : PresentationTransactionStep)
  | presented (index : Nat)

/-- The transaction with the queue of its device; `happened` are the happenings of the call under way. -/
structure Rig where
  transaction : PresentationTransaction
  nextTimeline : Nat
  completed : Nat
  happened : List Happening

/-- A call, with the outcomes of the callbacks and the answers of the driver to what the call asks of it.
Of the timeline an answer says how far it has moved on. -/
structure FrameCall where
  swapchain : Swapchain
  frameSlot : Nat
  dependencies : PresentationFrameDependencies
  counterValue : Except Int Nat
  semaphoreWait : Except Int Nat
  recordIndependent : Except Error (List CommandBuffer)
  offscreenSubmit : Except Int Unit
  nextImage : Except Int (Nat × PresentStatus)
  surfaceEncoder : Except Error Unit
  recordSurface : Except Error Unit
  endCommandBuffer : Except Int Unit
  surfaceSubmit : Except Int Unit
  queuePresent : Except Int PresentStatus

/-- `PipelineStages::COLOR_ATTACHMENT_OUTPUT`. -/
def colorAttachmentOutput : Nat := 1 <<< 9

def BinarySemaphore.wait (semaphore : BinarySemaphore) (stages : Nat) : Except Error SemaphoreWait :=
  if stages = 0 then .error (.validation "binary semaphore wait stage mask must be non-empty")
  else .ok ⟨semaphore.raw, 0⟩

namespace DecodedVideoFrame

def validateOwner (frame : DecodedVideoFrame) (owner : Nat) : Except Error Unit :=
  if frame.yPlaneOwner ≠ owner ∨ frame.uvPlaneOwner ≠ owner then
    .error (.validation "decoded video frame belongs to a different Device")
  else .ok ()

/-- The wait for a decoded frame; its stages are not empty. -/
def wait (frame : DecodedVideoFrame) : Except Error SemaphoreWait :=
  if frame.readyValue = 0 then .error (.validation "external timeline semaphore wait value must be non-zero")
  else .ok ⟨frame.ready, frame.readyValue⟩

end DecodedVideoFrame

def decodedVideoSubmissionParts (owner : Nat) (frames : List DecodedVideoFrame) : Except Error (List SemaphoreWait) :=
  frames.mapM fun frame => do
    frame.validateOwner owner
    frame.wait

def PresentationFrameDependencies.decodedSubmissionParts (dependencies : PresentationFrameDependencies)
    (scope : PresentationDependencyScope) (owner : Nat) : Except Error (List SemaphoreWait) :=
  if dependencies.scope ≠ scope then .ok []
  else decodedVideoSubmissionParts owner dependencies.decodedVideoFrames

namespace Rig

section Queue

def note (happening : Happening) : Op Rig Error Unit :=
  modify fun s => { s with happened := s.happened ++ [happening] }

def answer {α : Type} (operation : String) : Except Int α → Op Rig Error α
  | .ok a => pure a
  | .error source => fail (.vulkan operation source)

def outcome {α : Type} : Except Error α → Op Rig Error α
  | .ok a => pure a
  | .error e => fail e

def completedTimeline (counterValue : Except Int Nat) : Op Rig Error Nat := do
  let progress ← answer "vkGetSemaphoreCounterValue" counterValue
  modify fun s => { s with completed := s.completed + progress }
  return (← get).completed

/-- The wait has no end but that the value is reached. -/
def waitFor (frame : Nat) (semaphoreWait : Except Int Nat) : Op Rig Error Unit := do
  let progress ← answer "vkWaitSemaphores" semaphoreWait
  modify fun s => { s with completed := max (s.completed + progress) frame }

def allocateFrame : Op Rig Error Nat := do
  let s ← get
  let next ← okOr (checkedAdd s.nextTimeline 1) .timelineExhausted
  set { s with nextTimeline := next }
  return s.nextTimeline

/-- The two submissions of a queue, which differ in the semaphores they signal. -/
def submit (commands : List CommandBuffer) (signals : List BinarySemaphore) (submits : Except Int Unit) :
    Op Rig Error Nat := do
  let owner := (← get).transaction.owner
  if signals.any fun signal => signal.owner ≠ owner then
    fail (.validation "binary signal semaphore was created by a different Device")
  else if commands.any fun commands => commands.owner ≠ owner then
    fail (.validation "command buffer was created by a different Device")
  else do
    let frame ← allocateFrame
    answer "vkQueueSubmit2" submits
    return frame

def acquireNextImage (swapchain : Swapchain) (semaphore : BinarySemaphore)
    (nextImage : Except Int (Nat × PresentStatus)) : Op Rig Error (Nat × PresentStatus) := do
  if semaphore.owner ≠ swapchain.owner then fail (.validation "acquire semaphore was created by a different Device")
  else do
    let (index, status) ← answer "vkAcquireNextImageKHR" nextImage
    if index < swapchain.images then return (index, status)
    else fail (.validation "vkAcquireNextImageKHR returned an invalid image index")

def present (swapchain : Swapchain) (index : Nat) (waits : List BinarySemaphore)
    (queuePresent : Except Int PresentStatus) : Op Rig Error PresentStatus := do
  let owner := (← get).transaction.owner
  if swapchain.owner ≠ owner then fail (.validation "swapchain was created by a different Device")
  else if ¬index < swapchain.images then fail (.validation "present image index is outside the swapchain")
  else if waits.any fun wait => wait.owner ≠ owner then
    fail (.validation "present wait semaphore was created by a different Device")
  else answer "vkQueuePresentKHR" queuePresent

end Queue

section Frame

def setPhase (phase : PresentationTransactionPhase) : Op Rig Error Unit :=
  modify fun s => { s with transaction := { s.transaction with phase } }

def poison {α : Type} (e : Error) : Op Rig Error α := do
  setPhase .poisoned
  fail e

/-- `match … { Ok(value) => value, Err(error) => return self.poison(error) }`. -/
def orPoison {α : Type} (x : Op Rig Error α) : Op Rig Error α := fun s =>
  match x s with
  | .error (.error e) t => poison e t
  | r => r

/-- `self.frame_slots[frame_slot].last_submission = Some(frame)`. -/
def recordSubmission (frameSlot frame : Nat) : Op Rig Error Unit := do
  let s ← get
  let slot ← expect s.transaction.frameSlots[frameSlot]?
  set { s with
    transaction := { s.transaction with
      frameSlots := s.transaction.frameSlots.set frameSlot { slot with lastSubmission := some frame } } }

variable (call : FrameCall)

def validateFrameStart : Op Rig Error Unit := do
  let transaction := (← get).transaction
  if transaction.phase = .poisoned then
    fail (.validation "presentation transaction is poisoned; recreate it with the swapchain")
  else if call.swapchain.owner ≠ transaction.owner ∨ call.swapchain.raw ≠ transaction.swapchain then
    fail (.validation "presentation transaction belongs to a different swapchain")
  else do
    let slot ← okOr transaction.frameSlots[call.frameSlot]?
      (.validation s!"presentation frame slot {call.frameSlot} is missing")
    match slot.lastSubmission with
    | some last => do
      let completed ← completedTimeline call.counterValue
      if completed < last then waitFor last call.semaphoreWait else pure ()
    | none => pure ()
    setPhase .ready

def validateIndependentCommands (commands : List CommandBuffer) : Op Rig Error Unit := do
  let transaction := (← get).transaction
  if commands.any fun commands => commands.owner ≠ transaction.owner then
    fail (.validation "presentation command buffer was created by a different Device")
  else match transaction.plan.target with
    | .directSurface =>
      if commands.isEmpty then pure ()
      else fail (.validation "direct-surface presentation records its only physical pass after acquire")
    | .offscreen =>
      if commands.isEmpty then
        fail (.validation "offscreen presentation requires swapchain-independent command buffers")
      else pure ()

def validateDependencies (dependencies : PresentationFrameDependencies) : Op Rig Error Unit := do
  let transaction := (← get).transaction
  if dependencies.decodedVideoFrames ≠ [] ∧ transaction.plan.target = .directSurface ∧
      dependencies.scope = .independentCommands then
    fail (.validation "direct-surface presentation cannot consume decoded video in independent commands")
  else pure ()

/-- The work that does not need the surface, where it goes ahead of the acquire. -/
def submitOffscreen (call : FrameCall) (commands : List CommandBuffer) : Op Rig Error (Option Nat) := do
  let transaction := (← get).transaction
  if transaction.plan.acquire = .afterOffscreenSubmit then do
    let _ ← outcome (call.dependencies.decodedSubmissionParts .independentCommands transaction.owner)
    let frame ← submit commands [] call.offscreenSubmit
    note (.submitted .submitOffscreen call.frameSlot frame)
    recordSubmission call.frameSlot frame
    setPhase .offscreenSubmitted
    return some frame
  else return none

def acquireSurface : Op Rig Error (Nat × PresentStatus) := do
  let s ← get
  let slot ← expect s.transaction.frameSlots[call.frameSlot]?
  note (.acquiring call.frameSlot slot.acquire s.completed)
  let (index, status) ← acquireNextImage call.swapchain slot.acquire call.nextImage
  note (.acquired index)
  setPhase .surfaceAcquired
  return (index, status)

/-- The commands for the surface. Their first and last transitions of the image cannot fail. -/
def recordSurfaceCommands (index : Nat) : Op Rig Error CommandBuffer := do
  let transaction := (← get).transaction
  let _ ← expect transaction.imageStates[index]?
  orPoison (outcome call.surfaceEncoder)
  orPoison (outcome call.recordSurface)
  orPoison (answer "vkEndCommandBuffer" call.endCommandBuffer)
  note (.recorded transaction.plan.recordStep)
  setPhase .surfaceRecorded
  return ⟨transaction.owner⟩

/-- The submission that waits for the image. The two early returns before it do not poison. -/
def submitSurface (commands : List CommandBuffer) (surfaceCommands : CommandBuffer)
    (index : Nat) : Op Rig Error Nat := do
  let transaction := (← get).transaction
  let slot ← expect transaction.frameSlots[call.frameSlot]?
  let _ ← outcome (slot.acquire.wait colorAttachmentOutput)
  let presentSignal ← expect transaction.presentSignals[index]?
  let _ ← outcome (call.dependencies.decodedSubmissionParts (transaction.plan.surfaceScope call.dependencies)
    transaction.owner)
  let frame ← orPoison (submit
    (if transaction.plan.acquire = .afterOffscreenSubmit then [surfaceCommands] else commands ++ [surfaceCommands])
    [presentSignal] call.surfaceSubmit)
  note (.submitted transaction.plan.submitStep call.frameSlot frame)
  recordSubmission call.frameSlot frame
  setPhase .surfaceSubmitted
  return frame

def presentSurface (index : Nat) : Op Rig Error PresentStatus := do
  let presentSignal ← expect (← get).transaction.presentSignals[index]?
  let status ← orPoison (present call.swapchain index [presentSignal] call.queuePresent)
  note (.presented index)
  modify fun s => { s with
    transaction := { s.transaction with imageStates := s.transaction.imageStates.set index .presented } }
  setPhase .presented
  return status

def executeFrame : Op Rig Error PresentTransactionOutcome := do
  validateFrameStart call
  let commands ← outcome call.recordIndependent
  validateIndependentCommands commands
  validateDependencies call.dependencies
  let offscreenSubmission ← submitOffscreen call commands
  let (imageIndex, acquireStatus) ← acquireSurface call
  let surfaceCommands ← recordSurfaceCommands call imageIndex
  let surfaceSubmission ← submitSurface call commands surfaceCommands imageIndex
  let presentStatus ← presentSurface call imageIndex
  return ⟨imageIndex, acquireStatus, presentStatus, offscreenSubmission, surfaceSubmission⟩

end Frame

end Rig

/-- `Backend::create_presentation_transaction`, for a swapchain of the same device. Semaphores are numbered as they
are made. -/
def PresentationTransaction.create (swapchain : Swapchain) : PresentationTransaction where
  owner := swapchain.owner
  swapchain := swapchain.raw
  plan
  frameSlots := (List.range plan.frameSlots).map fun slot => ⟨⟨swapchain.owner, slot⟩, none⟩
  presentSignals := (List.range swapchain.images).map fun image => ⟨swapchain.owner, plan.frameSlots + image⟩
  imageStates := List.replicate swapchain.images .undefined
  phase := .ready

end TensorDE.Renderer
