import TensorDE.Wm.SurfaceAttributes

set_option linter.dupNamespace false

namespace TensorDE.Wm.Compositor

/-- A `wl_buffer.release` that was sent, and whether the surface still held the buffer then. -/
structure Release (B : Type) where
  buffer : B
  attachment : Nat
  inUse : Bool
deriving DecidableEq, Repr

/-- A surface with the buffer of its `SurfaceState`. `alive` tells which buffers the clients still have, `attachments`
counts the attachments, `committed` has those that were committed and `releases` what was sent for them. -/
structure BufferedSurface (B R : Type) where
  cached : CachedState (SurfaceAttributes B R)
  currentCommit : Nat
  buffer : Option (B × Nat)
  bufferSize : Option (Int × Int)
  destroyed : Bool
  alive : B → Bool
  attachments : Nat
  committed : List (B × Nat)
  releases : List (Release B)

def BufferAssignment.assigned {B : Type} : Option (BufferAssignment B) → List (B × Nat)
  | some (.newBuffer buffer attachment) => [(buffer, attachment)]
  | _ => []

namespace BufferedSurface

variable {B R : Type} [DecidableEq B]

def initial : BufferedSurface B R :=
  ⟨⟨SurfaceAttributes.initial, [], SurfaceAttributes.initial, []⟩, 0, none, none, false, fun _ => true, 0, [], []⟩

variable (s : BufferedSurface B R)

def displays (buffer : B) : Bool := s.buffer.any fun shown => shown.1 = buffer

def holds (buffer : B) : Bool :=
  s.displays buffer || (BufferAssignment.assigned s.cached.current.buffer).any fun held => held.1 = buffer

/-- Nothing is sent for a buffer that the client has destroyed. -/
def release (buffer : B) (attachment : Nat) (inUse : Bool) : BufferedSurface B R :=
  if s.alive buffer then { s with releases := s.releases ++ [⟨buffer, attachment, inUse⟩] } else s

/-- The releases of the merges. A buffer that was superseded is not the current one then, and the displayed one is
the same throughout. -/
def sendReleased : BufferedSurface B R :=
  { s.cached.current.released.foldl (fun s released => s.release released.1 released.2 (s.displays released.1)) s with
    cached := { s.cached with current := { s.cached.current with released := [] } } }

def attach (buffer : Option B) : BufferedSurface B R :=
  { s with
    attachments := s.attachments + 1
    cached := { s.cached with
      pending := { s.cached.pending with
        buffer := some ((buffer.map fun buffer => .newBuffer buffer s.attachments).getD .removed) } } }

/-- A commit that is applied at once, or held for a transaction. -/
def commit (s : BufferedSurface B R) (held : Bool) : BufferedSurface B R :=
  sendReleased { s with
    committed := s.committed ++ BufferAssignment.assigned s.cached.pending.buffer
    cached := s.cached.commit (if held then some s.currentCommit else none) 0
    currentCommit := if held then s.currentCommit + 1 else s.currentCommit }

def apply (s : BufferedSurface B R) (commit : Nat) : BufferedSurface B R :=
  sendReleased { s with cached := s.cached.apply commit }

def takeCurrent : BufferedSurface B R :=
  { s with cached := { s.cached with current := { s.cached.current with buffer := none } } }

def releaseBuffer : BufferedSurface B R :=
  match s.buffer with
  | some (buffer, attachment) =>
    let taken := { s with buffer := none }
    taken.release buffer attachment (taken.holds buffer)
  | none => s

/-- The same buffer stays, now for its latest attachment. -/
def replaceBuffer (buffer : B) (attachment : Nat) : BufferedSurface B R :=
  if s.displays buffer then { s with buffer := some (buffer, attachment) }
  else { s.releaseBuffer with buffer := some (buffer, attachment) }

def reset : BufferedSurface B R := { s.releaseBuffer with bufferSize := none }

variable (wireBufferSize : B → Option (Int × Int))

/-- `SurfaceState::update`, of the buffer, when the tree of the surface is traversed. -/
def update (s : BufferedSurface B R) : BufferedSurface B R :=
  match s.cached.current.buffer with
  | some (.newBuffer buffer attachment) =>
    match wireBufferSize buffer with
    | none => (s.takeCurrent.release buffer attachment (s.takeCurrent.holds buffer)).reset
    | some size => { s.takeCurrent.replaceBuffer buffer attachment with bufferSize := some size }
  | some .removed => s.takeCurrent.reset
  | none => s

def releasePending : BufferedSurface B R :=
  match s.cached.pending.buffer with
  | some (.newBuffer buffer attachment) =>
    let taken := { s with
      cached := { s.cached with
        pending := { s.cached.pending with buffer := none } } }
    taken.release buffer attachment (taken.holds buffer)
  | _ => s

def releaseCurrent : BufferedSurface B R :=
  match s.cached.current.buffer with
  | some (.newBuffer buffer attachment) => s.takeCurrent.release buffer attachment (s.takeCurrent.holds buffer)
  | _ => s

/-- `destroy_surface_state` and then `cleanup`. -/
def destroy : BufferedSurface B R :=
  { s.reset.releaseCurrent.releasePending with destroyed := true }

inductive Event (B : Type) where
  | attach (buffer : Option B)
  | commit (held : Bool)
  | skip
  | apply (commit : Nat)
  | update
  | bufferDestroyed (buffer : B)
  | destroy

/-- Nothing but its buffers is left of a surface that is destroyed. A commit is held where the surface is synchronized
or other surfaces commit with it; `skip` is a commit of the parent that leaves the commit of the surface alone. -/
def step (s : BufferedSurface B R) : Event B → Option (BufferedSurface B R)
  | .bufferDestroyed buffer => some { s with alive := fun other => s.alive other && other ≠ buffer }
  | .attach buffer => if s.destroyed ∨ buffer.any (fun buffer => !s.alive buffer) then none else some (s.attach buffer)
  | .commit held => if s.destroyed then none else some (s.commit held)
  | .skip => if s.destroyed then none else some { s with currentCommit := s.currentCommit + 1 }
  | .apply commit => if s.destroyed then none else some (s.apply commit)
  | .update => if s.destroyed then none else some (s.update wireBufferSize)
  | .destroy => if s.destroyed then none else some s.destroy

end BufferedSurface

end TensorDE.Wm.Compositor
