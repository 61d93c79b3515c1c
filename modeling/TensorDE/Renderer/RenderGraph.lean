import TensorDE.Lib.Effect
import TensorDE.Lib.Maps
import TensorDE.Lib.OrdSet
import Mathlib.Data.Prod.Lex

set_option linter.dupNamespace false

namespace TensorDE.Renderer

open Effect Maps Sets

structure PassId where
  value : UInt32
deriving DecidableEq

structure ResourceId where
  value : UInt64
deriving DecidableEq

inductive ResourceKind where
  | buffer
  | image
deriving DecidableEq

inductive AccessKind where
  | read
  | write
  | readWrite
deriving DecidableEq

def AccessKind.writes : AccessKind → Bool
  | .write | .readWrite => true
  | .read => false

inductive BufferState where
  | undefined
  | transferSource
  | transferDestination
  | vertexRead
  | indexRead
  | uniformRead
  | storageReadWrite
  | computeStorageReadWrite
  | indirectRead
deriving DecidableEq

inductive RenderGraphImageState where
  | undefined
  | colorAttachmentWrite
  | attachmentWrite
  | colorAttachmentReadWrite
  | renderingLocalRead
  | fragmentSampledRead
  | fragmentSampledReadGeneral
  | computeSampledRead
  | copySource
  | copyDestination
  | clearDestination
  | blitSource
  | blitDestination
  | transferSource
  | transferDestination
  | storageReadWrite
  | present
deriving DecidableEq

inductive ForeignImageState where
  | undefined
  | general
deriving DecidableEq

inductive ResourceState where
  | buffer (state : BufferState) (queueFamily : UInt32)
  | image (state : RenderGraphImageState) (queueFamily : UInt32)
  | foreignImage (state : ForeignImageState)
deriving DecidableEq

def ResourceState.resourceKind : ResourceState → ResourceKind
  | .buffer _ _ => .buffer
  | .image _ _ | .foreignImage _ => .image

structure ResourceUse where
  resource : ResourceId
  kind : ResourceKind
  access : AccessKind
  state : ResourceState
deriving DecidableEq

structure RenderPass where
  id : PassId
  dependsOn : List PassId
  resources : List ResourceUse
deriving DecidableEq

/-- `before` is `none` for the state a resource has before the first pass. -/
structure Barrier where
  resource : ResourceId
  kind : ResourceKind
  before : Option PassId
  after : PassId
  source : ResourceState
  destination : ResourceState
deriving DecidableEq

structure CompiledGraph where
  orderedPasses : List PassId
  barriers : List Barrier
deriving DecidableEq

structure RenderGraph where
  passes : List RenderPass
  initialStates : Map ResourceId (ResourceKind × ResourceState)

inductive RenderGraphError where
  | duplicatePass (pass : PassId)
  | unknownDependency (pass dependency : PassId)
  | duplicateResourceUse (pass : PassId) (resource : ResourceId)
  | resourceKindChanged (resource : ResourceId)
  | resourceStateKindMismatch (resource : ResourceId) (kind stateKind : ResourceKind)
  | cycle
deriving DecidableEq

namespace RenderGraph

abbrev Result (α : Type) := Except (Fault RenderGraphError) α

/-- `(before, after)`, in the order in which the set holds the pairs. -/
abbrev Edge := Nat ×ₗ Nat

def default : RenderGraph := ⟨[], Map.empty⟩

variable (graph : RenderGraph)

def addPass (pass : RenderPass) : RenderGraph := { graph with passes := graph.passes ++ [pass] }

def setInitialState (resource : ResourceId) (kind : ResourceKind) (state : ResourceState) :
    RenderGraph :=
  { graph with initialStates := graph.initialStates.insert resource (kind, state) }

def initialEntries : List (ResourceId × ResourceKind × ResourceState) :=
  (graph.initialStates.keys.insertionSort fun a b => a.value ≤ b.value).filterMap fun resource =>
    (graph.initialStates.find resource).map fun entry => (resource, entry)

def checkInitialStates : List (ResourceId × ResourceKind × ResourceState) → Result Unit
  | [] => .ok ()
  | (resource, kind, state) :: rest =>
    if kind ≠ state.resourceKind then .error (.error (.resourceStateKindMismatch resource kind state.resourceKind))
    else checkInitialStates rest

def indexPasses (index : Nat) (indexById : Map PassId Nat) : List RenderPass → Result (Map PassId Nat)
  | [] => .ok indexById
  | pass :: rest =>
    match indexById.find pass.id with
    | some _ => .error (.error (.duplicatePass pass.id))
    | none => indexPasses (index + 1) (indexById.insert pass.id index) rest

def passEdges (indexById : Map PassId Nat) (pass : PassId) (after : Nat) (edges : OrdSet Edge) :
    List PassId → Result (OrdSet Edge)
  | [] => .ok edges
  | dependency :: rest =>
    match indexById.find dependency with
    | none => .error (.error (.unknownDependency pass dependency))
    | some before => passEdges indexById pass after (edges.insert (toLex (before, after))) rest

def explicitEdges (indexById : Map PassId Nat) (after : Nat) (edges : OrdSet Edge) : List RenderPass → Result (OrdSet Edge)
  | [] => .ok edges
  | pass :: rest => do
    let edges ← passEdges indexById pass.id after edges pass.dependsOn
    explicitEdges indexById (after + 1) edges rest

/-- What the walk over the uses carries along. -/
structure Scan where
  edges : OrdSet Edge
  barriers : List Barrier
  previous : Map ResourceId (Option Nat × ResourceUse)

def initialPrevious : Map ResourceId (Option Nat × ResourceUse) :=
  graph.initialStates.collect fun resource entry => (none, ⟨resource, entry.1, .read, entry.2⟩)

variable (passes : List RenderPass)

/-- `self.passes[before].id`, for the passes that have been seen. -/
def passIdAt (index : Nat) : Result PassId :=
  match passes[index]? with
  | some pass => .ok pass.id
  | none => .error .panic

def followPrior (after : Nat) (pass : PassId) (usage : ResourceUse) (scan : Scan) : Result Scan :=
  match scan.previous.find usage.resource with
  | none => .ok scan
  | some (before, prior) =>
    if prior.kind ≠ usage.kind then .error (.error (.resourceKindChanged usage.resource))
    else if prior.access.writes || usage.access.writes || prior.state ≠ usage.state then
      match before with
      | none =>
        .ok { scan with
          barriers := scan.barriers ++ [⟨usage.resource, usage.kind, none, pass, prior.state, usage.state⟩] }
      | some before => do
        let id ← passIdAt passes before
        .ok { scan with
          edges := scan.edges.insert (toLex (before, after))
          barriers := scan.barriers ++ [⟨usage.resource, usage.kind, some id, pass, prior.state, usage.state⟩] }
    else .ok scan

def scanUses (passes : List RenderPass) (after : Nat) (pass : PassId) (inPass : Finset ResourceId) (scan : Scan) :
    List ResourceUse → Result Scan
  | [] => .ok scan
  | usage :: rest =>
    if usage.kind ≠ usage.state.resourceKind then
      .error (.error (.resourceStateKindMismatch usage.resource usage.kind usage.state.resourceKind))
    else if usage.resource ∈ inPass then .error (.error (.duplicateResourceUse pass usage.resource))
    else do
      let scan ← followPrior passes after pass usage scan
      scanUses passes after pass (insert usage.resource inPass)
        { scan with previous := scan.previous.insert usage.resource (some after, usage) } rest

def scanPasses (passes : List RenderPass) (after : Nat) (scan : Scan) : List RenderPass → Result Scan
  | [] => .ok scan
  | pass :: rest => do
    let scan ← scanUses passes after pass.id ∅ scan pass.resources
    scanPasses passes (after + 1) scan rest

def countEdges (successors : List (List Nat)) (indegrees : List Nat) : List Edge → Result (List (List Nat) × List Nat)
  | [] => .ok (successors, indegrees)
  | edge :: rest =>
    if (ofLex edge).1 = (ofLex edge).2 then .error (.error .cycle)
    else
      match successors[(ofLex edge).1]?, indegrees[(ofLex edge).2]? with
      | some after, some indegree =>
        countEdges (successors.set (ofLex edge).1 (after ++ [(ofLex edge).2]))
          (indegrees.set (ofLex edge).2 (indegree + 1)) rest
      | _, _ => .error .panic

def releaseSuccessors (indegrees : List Nat) (ready : OrdSet Nat) : List Nat → Result (List Nat × OrdSet Nat)
  | [] => .ok (indegrees, ready)
  | successor :: rest =>
    match indegrees[successor]? with
    | some (indegree + 1) =>
      releaseSuccessors (indegrees.set successor indegree) (if indegree = 0 then ready.insert successor else ready) rest
    | _ => .error .panic

/-- The loop over `ready`. Every round takes a pass out, so `rounds` above the pass count never run out. -/
def drainReady (successors : List (List Nat)) (indegrees : List Nat) (ready : OrdSet Nat) (ordered : List Nat) :
    Nat → Result (List Nat)
  | 0 => .error .diverge
  | rounds + 1 =>
    match ready.popFirst with
    | none => .ok ordered
    | some (index, ready) =>
      match successors[index]? with
      | none => .error .panic
      | some after => do
        let (indegrees, ready) ← releaseSuccessors indegrees ready after
        drainReady successors indegrees ready (ordered ++ [index]) rounds

def topologicalOrder (passCount : Nat) (edges : OrdSet Edge) : Result (List Nat) := do
  let (successors, indegrees) ← countEdges (List.replicate passCount []) (List.replicate passCount 0) edges.elems
  let ready := OrdSet.ofList ((List.range passCount).filter fun index => indegrees[index]? = some 0)
  let ordered ← drainReady successors indegrees ready [] (passCount + 1)
  if ordered.length = passCount then .ok ordered else .error (.error .cycle)

def compile : Result CompiledGraph := do
  checkInitialStates graph.initialEntries
  let indexById ← indexPasses 0 Map.empty graph.passes
  let edges ← explicitEdges indexById 0 OrdSet.empty graph.passes
  let scan ← scanPasses graph.passes 0 ⟨edges, [], graph.initialPrevious⟩ graph.passes
  let orderedIndices ← topologicalOrder graph.passes.length scan.edges
  let orderedPasses ← orderedIndices.mapM (passIdAt graph.passes)
  .ok ⟨orderedPasses, scan.barriers⟩

end RenderGraph

end TensorDE.Renderer
