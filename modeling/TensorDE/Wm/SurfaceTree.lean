import TensorDE.Wm.SurfaceCache
import TensorDE.Wm.SurfaceTransaction

set_option linter.dupNamespace false

namespace TensorDE.Wm.Compositor

/-- `sync` is the flag of the `SubsurfaceState` in the data map, `alive` whether the client still
has the object. `issued` counts the commits of the surface; the compositor does not keep it. -/
structure PrivateSurfaceData (T : Type) where
  alive : Bool := false
  role : Option String := none
  parent : Option Surface := none
  children : List Surface := []
  sync : Option Bool := none
  cachedState : CachedState T
  pendingTransaction : Handle := 0
  currentCommit : Nat := 0
  issued : Nat := 0

/-- The surfaces of one client, those below `count` created so far, and its transaction queue.
`work` is what the loops of `Transaction::apply` that are under way have still to do, the innermost
first. `retired` and `cancelled` remember the transactions that left the queue. -/
@[ext]
structure Client (T : Type) where
  surfaces : Surface → PrivateSurfaceData T
  count : Nat
  heap : Heap
  signaled : Barrier → Bool
  queue : List Transaction
  work : List (Surface × Nat)
  retired : List Transaction
  cancelled : List Transaction

def SUBSURFACE_ROLE : String := "subsurface"

inductive Location where
  | before
  | after

variable {T : Type} [Cacheable T]

namespace Client

def initial : Client T where
  surfaces _ := { cachedState := .initial }
  count := 0
  heap := ⟨fun _ => ⟨0, .data {}⟩, 0⟩
  signaled _ := false
  queue := []
  work := []
  retired := []
  cancelled := []

def alive (c : Client T) (surface : Surface) : Bool := (c.surfaces surface).alive

variable (surface : Surface)

def edit (change : PrivateSurfaceData T → PrivateSurfaceData T) (c : Client T) : Client T :=
  { c with surfaces := Function.update c.surfaces surface (change (c.surfaces surface)) }

/-- `PrivateSurfaceData::new` and `init`. -/
def createSurface (c : Client T) : Client T :=
  { c with
    surfaces := Function.update c.surfaces c.count
      { alive := true, children := [c.count], cachedState := .initial, pendingTransaction := c.heap.allocated }
    count := c.count + 1
    heap := c.heap.new (.data {}) }

def editPending (change : T → T) (c : Client T) : Client T :=
  c.edit surface fun data =>
    { data with cachedState := { data.cachedState with pending := change data.cachedState.pending } }

def setRole (role : String) (c : Client T) : Client T :=
  if (c.surfaces surface).role.isSome ∧ (c.surfaces surface).role ≠ some role then c
  else c.edit surface fun data => { data with role := some role }

section Transactions

variable (c : Client T)

def pending (surface : Surface) : TransactionState :=
  c.heap.state (c.surfaces surface).pendingTransaction

variable (surface : Surface)

def addBlocker (barrier : Barrier) (c : Client T) : Client T :=
  { c with
    heap := c.heap.withState (c.surfaces surface).pendingTransaction fun state =>
      { state with blockers := state.blockers ++ [barrier] } }

/-- `PendingTransaction::insert`, for the commit with number `serial`. -/
def insertPending (commit serial : Nat) (c : Client T) : Client T :=
  { c with
    heap := c.heap.withState (c.surfaces surface).pendingTransaction fun state =>
      { state.insert surface commit with commits := state.commits ++ [(surface, serial)] } }

/-- `std::mem::take` of a pending transaction: a fresh one stands in its place. -/
def takePending (c : Client T) : Client T :=
  { c.edit surface fun data => { data with pendingTransaction := c.heap.allocated } with
    heap := c.heap.new (.data {}) }

/-- Takes the pending transaction of `child`, merges it into the one of `surface` and drops it. -/
def fuse (child surface : Surface) (c : Client T) : Client T :=
  { c.takePending child with
    heap :=
      (((c.takePending child).heap.mergeInto c.alive (c.surfaces child).pendingTransaction
        ((c.takePending child).surfaces surface).pendingTransaction).drop (c.surfaces child).pendingTransaction) }

def cacheCommit (commit : Option Nat) (c : Client T) : Client T :=
  c.edit surface fun data =>
    { data with cachedState := data.cachedState.commit commit data.issued, issued := data.issued + 1 }

def bumpCommit (c : Client T) : Client T :=
  c.edit surface fun data => { data with currentCommit := data.currentCommit + 1 }

/-- `TransactionQueue::take_ready` and the start of the loop that applies what it returns. -/
def takeReady (c : Client T) : Client T :=
  { c with
    queue := (Compositor.takeReady c.alive c.signaled [] c.queue).kept
    work := (Compositor.takeReady c.alive c.signaled [] c.queue).ready.flatMap (·.surfaces) ++ c.work
    retired := c.retired ++ (Compositor.takeReady c.alive c.signaled [] c.queue).ready
    cancelled := c.cancelled ++ (Compositor.takeReady c.alive c.signaled [] c.queue).cancelled }

def applyCommit (commit : Nat) (c : Client T) : Client T :=
  c.edit surface fun data => { data with cachedState := data.cachedState.apply commit }

/-- One round of `Transaction::apply`. The hooks it calls afterwards may signal barriers and come
back to the queue. -/
def applyNext : Client T :=
  match c.work with
  | [] => c
  | (surface, commit) :: rest =>
    if c.alive surface then { c.applyCommit surface commit with work := rest } else { c with work := rest }

def signal (barrier : Barrier) (c : Client T) : Client T :=
  { c with signaled := Function.update c.signaled barrier true }

end Transactions

section Tree

variable (c : Client T)

def directSync (surface : Surface) : Bool := (c.surfaces surface).sync.getD false

def effectivelySyncLoop (c : Client T) : Nat → Surface → Bool
  | 0, _ => true
  | rounds + 1, surface =>
    if c.directSync surface then true
    else
      match (c.surfaces surface).parent with
      | none => false
      | some parent => effectivelySyncLoop c rounds parent

def effectivelySync (surface : Surface) : Bool := effectivelySyncLoop c 256 surface

def isAncestorLoop (c : Client T) (ancestor : Surface) : Nat → Surface → Bool
  | 0, _ => true
  | rounds + 1, surface =>
    match (c.surfaces surface).parent with
    | none => false
    | some parent => if parent = ancestor then true else isAncestorLoop c ancestor rounds parent

def isAncestor (ancestor surface : Surface) : Bool := isAncestorLoop c ancestor 256 surface

/-- `set_parent`, and the `SubsurfaceState` the request then asks for. A refused request ends in a
protocol error and changes nothing. -/
def getSubsurface (child parent : Surface) (c : Client T) : Client T :=
  if child = parent ∨ c.isAncestor child parent then c
  else if (c.surfaces child).role.isSome ∧ (c.surfaces child).role ≠ some SUBSURFACE_ROLE then c
  else if (c.surfaces child).parent.isSome then c
  else
    (c.edit child fun data =>
      { data with
        role := some SUBSURFACE_ROLE
        parent := some parent
        sync := some (data.sync.getD true) }).edit parent fun data =>
      { data with children := data.children ++ [child] }

def unsetParent (child : Surface) (c : Client T) : Client T :=
  match (c.surfaces child).parent with
  | none => c
  | some parent =>
    (c.edit child fun data => { data with parent := none }).edit parent fun data =>
      { data with children := data.children.filter (· ≠ child) }

variable (surface : Surface)

def setSync (sync : Bool) (c : Client T) : Client T :=
  c.edit surface fun data => { data with sync := some sync }

/-- What the end of a `wl_subsurface` does. -/
def subsurfaceDestroyed (c : Client T) : Client T :=
  (c.unsetParent surface).setSync surface true

def orphan (surface : Surface) : List Surface → Client T → Client T
  | [], c => c
  | child :: rest, c =>
    orphan surface rest (if child = surface then c else c.edit child fun data => { data with parent := none })

/-- `cleanup` of a surface whose object is gone. -/
def cleanup (c : Client T) : Client T :=
  (orphan surface (c.surfaces surface).children (c.unsetParent surface)).edit surface fun data =>
    { data with alive := false, children := [] }

/-- Where a child taken from the index `current` is put back, next to the one at `relative`. -/
def insertionIndex (location : Location) (current relative : Nat) : Nat :=
  match location with
  | .before => if current < relative then relative - 1 else relative
  | .after => (if current < relative then relative - 1 else relative) + 1

def moveChild (location : Location) (relative : Surface) (children : List Surface) :
    Except Fault (List Surface) :=
  if insertionIndex location (children.idxOf surface) (children.idxOf relative) ≤
      (children.eraseIdx (children.idxOf surface)).length then
    .ok ((children.eraseIdx (children.idxOf surface)).insertIdx
      (insertionIndex location (children.idxOf surface) (children.idxOf relative)) surface)
  else .error .outOfRange

def reorder (location : Location) (relative : Surface) (c : Client T) :
    Except Fault (Client T) :=
  match (c.surfaces surface).parent with
  | none => .ok c
  | some parent =>
    if surface ∈ (c.surfaces parent).children ∧ relative ∈ (c.surfaces parent).children then do
      let children ← moveChild surface location relative (c.surfaces parent).children
      pure (c.edit parent fun data => { data with children })
    else .ok c

end Tree

section Commit

/-- The end of `commit_sync_tree`: the surface is committed and its transaction merged into the
one of its parent. -/
def commitIntoParent (surface parent : Surface) (c : Client T) : Client T :=
  (((c.cacheCommit surface (some (c.surfaces surface).currentCommit)).insertPending surface
    (c.surfaces surface).currentCommit (c.surfaces surface).issued).fuse surface parent).bumpCommit surface

/-- `commit_sync_tree`. The locks of the surfaces above are held, so that a surface among its own
ancestors waits forever; `fuel` bounds the depth. -/
def commitSyncTree : Nat → Surface → Surface → Client T → Except Fault (Client T)
  | 0, _, _, _ => .error .deadlock
  | fuel + 1, surface, parent, c => do
    let c ← (c.surfaces surface).children.foldlM
      (fun c child => if child = surface then pure c else commitSyncTree fuel child surface c) c
    pure (c.commitIntoParent surface parent)

variable (synchronized : Bool)

def commitChild (surface child : Surface) (c : Client T) : Except Fault (Client T) :=
  if child = surface then pure c
  else if !synchronized && c.directSync child then commitSyncTree c.count child surface c
  else if synchronized || c.directSync child then pure ((c.bumpCommit child).fuse child surface)
  else pure c

variable (surface : Surface)

/-- The commit of the surface itself, under the next id. -/
def commitSelf (c : Client T) : Client T :=
  ((c.cacheCommit surface (some (c.surfaces surface).currentCommit)).insertPending surface
    (c.surfaces surface).currentCommit (c.surfaces surface).issued).bumpCommit surface

def finalizePending (c : Client T) : Except Fault (Client T) := do
  let finalized ← (c.takePending surface).heap.finalize (c.surfaces surface).pendingTransaction
  pure { c.takePending surface with heap := finalized.2, queue := c.queue ++ [finalized.1] }

/-- `PrivateSurfaceData::commit`, once the children are seen to. -/
def finishCommit (surface : Surface) (c : Client T) : Except Fault (Client T) :=
  if !synchronized && (c.pending surface).isEmpty then pure (c.cacheCommit surface none)
  else if synchronized then pure (c.commitSelf surface)
  else do
    let c ← (c.commitSelf surface).finalizePending surface
    pure c.takeReady

/-- `PrivateSurfaceData::commit`. -/
def commit (c : Client T) : Except Fault (Client T) := do
  let synchronized := c.effectivelySync surface
  let c ← (c.surfaces surface).children.foldlM (fun c child => commitChild synchronized surface child c) c
  finishCommit synchronized surface c

end Commit

end Client

end TensorDE.Wm.Compositor
