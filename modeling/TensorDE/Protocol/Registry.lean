import TensorDE.Lib.Effect
import TensorDE.Lib.Maps

set_option linter.dupNamespace false

namespace TensorDE.Protocol

open TensorDE.Maps TensorDE.Effect

abbrev SurfaceId := Nat

abbrev SurfaceBufferId := Nat

structure Size where
  width : Nat
  height : Nat
deriving DecidableEq, Repr

structure Rect where
  x : Int
  y : Int
  width : Nat
  height : Nat
deriving DecidableEq, Repr

def Rect.size (r : Rect) : Size := ⟨r.width, r.height⟩

def saturatingAdd (a b : Nat) : Nat := min (a + b) (2 ^ 64 - 1)

structure AttachedBuffer (K : Type) where
  object : K
  id : SurfaceBufferId
  localGeometry : Rect

structure BufferState where
  id : SurfaceBufferId
  size : Size
  attachments : Nat
  destroyed : Bool

/-- `D` holds the transform, the source rectangle, the layer, the alpha and the color, which the
registry only stores and compares. -/
structure SurfaceState (K C D : Type) where
  id : SurfaceId
  current : Option (AttachedBuffer K)
  revision : Nat
  lastCommit : Option C
  bufferScale : Nat
  drawing : D

def SurfaceState.fresh {K C D : Type} [Inhabited D] (id : SurfaceId) : SurfaceState K C D :=
  ⟨id, none, 0, none, 1, default⟩

structure SurfaceCommit (K C D : Type) where
  buffer : Option K
  logicalSize : Option Size
  localOffset : Int × Int
  commit : C
  bufferScale : Nat
  drawing : D

/-- The last three fields are what `SurfaceSampleTransform::for_surface` computes the sample
transform from. -/
structure SurfaceContent (D : Type) where
  surfaceId : SurfaceId
  bufferId : SurfaceBufferId
  revision : Nat
  localGeometry : Rect
  bufferSize : Size
  bufferScale : Nat
  drawing : D

structure SurfaceUpdate (D : Type) where
  changed : Bool
  content : Option (SurfaceContent D)
  releasedBuffers : List SurfaceBufferId

structure SurfaceTreeUpdate (D : Type) where
  changed : Bool
  contents : List (SurfaceContent D)
  removedSurfaces : List SurfaceId
  releasedBuffers : List SurfaceBufferId

structure SurfaceTreeRemoval where
  surfaces : List SurfaceId
  releasedBuffers : List SurfaceBufferId

structure SurfaceBufferRegistry (K C D : Type) where
  nextSurfaceId : Nat
  nextBufferId : Nat
  surfaces : Map K (SurfaceState K C D)
  buffers : Map K BufferState
  viewMembers : Map K (List K)
  surfaceRoots : Map K K

namespace SurfaceState

variable {K C D : Type} [DecidableEq K] [DecidableEq C] [DecidableEq D] (state : SurfaceState K C D)

/-- `changed` of `update_surface`. -/
def differs (next : Option (AttachedBuffer K)) (snapshot : SurfaceCommit K C D) : Bool :=
  state.current.map AttachedBuffer.id ≠ next.map AttachedBuffer.id
    ∨ (state.current.isSome ∧ next.isSome
      ∧ state.current.map AttachedBuffer.localGeometry ≠ next.map AttachedBuffer.localGeometry)
    ∨ state.lastCommit ≠ some snapshot.commit
    ∨ state.bufferScale ≠ max snapshot.bufferScale 1
    ∨ state.drawing ≠ snapshot.drawing

/-- The state a commit leaves a surface in. Only a changed one advances the revision and takes the
new attachment. -/
def committed (next : Option (AttachedBuffer K))
    (snapshot : SurfaceCommit K C D) : SurfaceState K C D :=
  { id := state.id
    -- an attachment of another object has been taken out before
    current := if state.differs next snapshot then next
      else if state.current.map AttachedBuffer.object ≠ next.map AttachedBuffer.object then none
      else state.current
    revision := if state.differs next snapshot then (state.revision + 1) % 2 ^ 64 else state.revision
    lastCommit := some snapshot.commit
    bufferScale := max snapshot.bufferScale 1
    drawing := snapshot.drawing }

end SurfaceState

namespace SurfaceBufferRegistry

variable {K C D : Type} [DecidableEq K] [DecidableEq C] [DecidableEq D] [Inhabited D]

def default : SurfaceBufferRegistry K C D := ⟨1, 1, Map.empty, Map.empty, Map.empty, Map.empty⟩

variable (r : SurfaceBufferRegistry K C D)

def allocateSurfaceId : Option (SurfaceId × SurfaceBufferRegistry K C D) :=
  (checkedAdd r.nextSurfaceId 1).map fun next => (r.nextSurfaceId, { r with nextSurfaceId := next })

def allocateBufferId : Option (SurfaceBufferId × SurfaceBufferRegistry K C D) :=
  (checkedAdd r.nextBufferId 1).map fun next => (r.nextBufferId, { r with nextBufferId := next })

def registerSurface (object : K) :
    Option (SurfaceId × SurfaceBufferRegistry K C D) :=
  match r.surfaces.find object with
  | some state => some (state.id, r)
  | none =>
    r.allocateSurfaceId.map fun p =>
      (p.1, { p.2 with surfaces := p.2.surfaces.insert object (SurfaceState.fresh p.1) })

def registerViewRoot (root : K) :
    Option (SurfaceId × SurfaceBufferRegistry K C D) :=
  (r.registerSurface root).map fun p =>
    (p.1, { p.2 with
      viewMembers := p.2.viewMembers.ensure root [root]
      surfaceRoots := p.2.surfaceRoots.ensure root root })

def registerImportedBuffer (object : K) (id : SurfaceBufferId) (size : Size) :
    Bool × SurfaceBufferRegistry K C D :=
  match r.buffers.find object with
  | some state => (!state.destroyed && state.id == id && state.size == size, r)
  | none => (true, { r with buffers := r.buffers.insert object ⟨id, size, 0, false⟩ })

/-- `collect_destroyed`: a buffer nothing names any more gives its id back. -/
def collectDestroyed (object : K) :
    Option SurfaceBufferId × SurfaceBufferRegistry K C D :=
  match r.buffers.find object with
  | some record =>
    if record.destroyed && record.attachments == 0 then
      (some record.id, { r with buffers := r.buffers.erase object })
    else (none, r)
  | none => (none, r)

def detachBuffer (object : K) :
    List SurfaceBufferId × SurfaceBufferRegistry K C D :=
  let detached := { r with buffers := r.buffers.modify object fun record =>
    { record with attachments := record.attachments - 1 } }
  ((detached.collectDestroyed object).1.toList, (detached.collectDestroyed object).2)

def attachBuffer (object : K) : SurfaceBufferRegistry K C D :=
  { r with buffers := r.buffers.modify object fun record =>
    { record with attachments := saturatingAdd record.attachments 1 } }

def bufferDestroyed (object : K) :
    List SurfaceBufferId × SurfaceBufferRegistry K C D :=
  match r.buffers.find object with
  | none => ([], r)
  | some _ =>
    let dead := { r with buffers := r.buffers.modify object fun record => { record with destroyed := true } }
    ((dead.collectDestroyed object).1.toList, (dead.collectDestroyed object).2)

def nextAttachment (state : SurfaceState K C D) (snapshot : SurfaceCommit K C D) :
    Option (AttachedBuffer K) :=
  snapshot.buffer.bind fun object => (r.buffers.find object).bind fun record =>
    if record.destroyed ∧ state.current.map AttachedBuffer.object ≠ some object then none
    else
      let logicalSize := (snapshot.logicalSize.filter fun size => 0 < size.width ∧ 0 < size.height).getD record.size
      some ⟨object, record.id,
        ⟨snapshot.localOffset.1, snapshot.localOffset.2, logicalSize.width, logicalSize.height⟩⟩

/-- The moves between the attachment counts when a surface goes from one buffer to another. -/
def replaceAttachment (current next : Option (AttachedBuffer K)) :
    List SurfaceBufferId × SurfaceBufferRegistry K C D :=
  if current.map AttachedBuffer.object ≠ next.map AttachedBuffer.object then
    let released := match current with
      | some previous => r.detachBuffer previous.object
      | none => ([], r)
    match next with
    | some next => (released.1, released.2.attachBuffer next.object)
    | none => released
  else ([], r)

def contentOf (state : SurfaceState K C D) : Option (SurfaceContent D) :=
  state.current.map fun current =>
    { surfaceId := state.id, bufferId := current.id, revision := state.revision,
      localGeometry := current.localGeometry,
      bufferSize := ((r.buffers.find current.object).map BufferState.size).getD current.localGeometry.size,
      bufferScale := state.bufferScale, drawing := state.drawing }

def updateSurface (surface : K) (snapshot : SurfaceCommit K C D) :
    SurfaceUpdate D × SurfaceBufferRegistry K C D :=
  match r.surfaces.find surface with
  | none => (⟨false, none, []⟩, r)
  | some state =>
    let next := r.nextAttachment state snapshot
    let moved := r.replaceAttachment state.current next
    let state' := state.committed next snapshot
    (⟨state.differs next snapshot, moved.2.contentOf state', moved.1⟩,
      { moved.2 with surfaces := moved.2.surfaces.insert surface state' })

def surfaceId (surface : K) : Option SurfaceId :=
  (r.surfaces.find surface).map SurfaceState.id

def removeSurface (surface : K) :
    List SurfaceBufferId × SurfaceBufferRegistry K C D :=
  match r.surfaces.find surface with
  | none => ([], r)
  | some state =>
    let rest := { r with
      surfaces := r.surfaces.erase surface
      surfaceRoots := r.surfaceRoots.erase surface
      viewMembers := r.viewMembers.mapValues fun _ members => members.filter (· ≠ surface) }
    match state.current with
    | some current => rest.detachBuffer current.object
    | none => ([], rest)

def removeSurfaces (r : SurfaceBufferRegistry K C D) : List K → List SurfaceBufferId × SurfaceBufferRegistry K C D
  | [] => ([], r)
  | surface :: rest =>
    let removed := r.removeSurface surface
    let later := removed.2.removeSurfaces rest
    (removed.1 ++ later.1, later.2)

/-- The ids of the surfaces in the order `removeSurfaces` takes them out. -/
def removedIds (r : SurfaceBufferRegistry K C D) : List K → List SurfaceId
  | [] => []
  | surface :: rest => (r.surfaceId surface).toList ++ (r.removeSurface surface).2.removedIds rest

/-- The first loop of `update_view_tree`: on a failure it takes back what it has registered. -/
def registerMembers (r : SurfaceBufferRegistry K C D) (newlyRegistered : List K) :
    List K → Bool × SurfaceBufferRegistry K C D
  | [] => (true, r)
  | surface :: rest =>
    if (r.surfaces.find surface).isSome then r.registerMembers newlyRegistered rest
    else
      match r.registerSurface surface with
      | none => (false, (r.removeSurfaces newlyRegistered).2)
      | some p => p.2.registerMembers (newlyRegistered ++ [surface]) rest

def firstCommits : List K → List (K × SurfaceCommit K C D) → List (K × SurfaceCommit K C D)
  | _, [] => []
  | seen, c :: rest => if c.1 ∈ seen then firstCommits seen rest else c :: firstCommits (c.1 :: seen) rest

def updateSurfaces (r : SurfaceBufferRegistry K C D) (update : SurfaceTreeUpdate D) :
    List (K × SurfaceCommit K C D) → SurfaceTreeUpdate D × SurfaceBufferRegistry K C D
  | [] => (update, r)
  | c :: rest =>
    let one := r.updateSurface c.1 c.2
    one.2.updateSurfaces
      { update with
        changed := update.changed || one.1.changed
        releasedBuffers := update.releasedBuffers ++ one.1.releasedBuffers
        contents := update.contents ++ one.1.content.toList } rest

def setMembers (root : K) (members : List K) : SurfaceBufferRegistry K C D :=
  { r with viewMembers := r.viewMembers.insert root members }

def setRoots (root : K) (members : List K) : SurfaceBufferRegistry K C D :=
  { r with surfaceRoots := members.foldl (fun roots surface => roots.insert surface root) r.surfaceRoots }

def updateViewTree (root : K) (commits : List (K × SurfaceCommit K C D)) :
    Option (SurfaceTreeUpdate D) × SurfaceBufferRegistry K C D :=
  let commits := firstCommits [] commits
  let members := commits.map Prod.fst
  match r.registerMembers [] members with
  | (false, r) => (none, r)
  | (true, r) =>
    let previous := (r.viewMembers.find root).getD []
    let r := r.setMembers root members
    let retired := previous.filter (· ∉ members)
    let removed := r.removeSurfaces retired
    let update := ⟨previous ≠ members, [], r.removedIds retired, removed.1⟩
    let done := (removed.2.setRoots root members).updateSurfaces update commits
    (some done.1, done.2)

def removeViewTree (root : K) :
    SurfaceTreeRemoval × SurfaceBufferRegistry K C D :=
  let members := ((r.viewMembers.find root).getD [root]).reverse.dedup.reverse
  let r := { r with viewMembers := r.viewMembers.erase root }
  (⟨r.removedIds members, (r.removeSurfaces members).1⟩, (r.removeSurfaces members).2)

end SurfaceBufferRegistry

end TensorDE.Protocol
