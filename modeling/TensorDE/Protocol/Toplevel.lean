import TensorDE.Protocol.Registry

set_option linter.dupNamespace false

namespace TensorDE.Protocol.XdgShell

open List

def maxPendingConfigures : Nat := 16

/-- The configures that are not acknowledged yet with their serials, oldest first. -/
structure ConfigureQueue (T : Type) where
  entries : List (Nat × T)
  bounded : entries.length ≤ maxPendingConfigures

namespace ConfigureQueue

variable {T : Type}

def new : ConfigureQueue T := ⟨[], Nat.zero_le _⟩

variable (q : ConfigureQueue T)

def push (serial : Nat) (value : T) : ConfigureQueue T :=
  if h : q.entries.length = maxPendingConfigures then
    ⟨q.entries.tail ++ [(serial, value)], by
      rw [length_append, length_tail, length_singleton, h]
      decide⟩
  else
    ⟨q.entries ++ [(serial, value)], by
      rw [length_append, length_singleton]
      exact Nat.lt_of_le_of_ne q.bounded h⟩

def ack (serial : Nat) : Option (T × ConfigureQueue T) :=
  match h : q.entries.dropWhile fun entry => entry.1 ≠ serial with
  | [] => none
  | entry :: rest =>
    some (entry.2, ⟨rest, by
      grind [dropWhile_suffix, q.bounded]⟩)

end ConfigureQueue

/-- `next_serial`: the serial that is handed out next. -/
def nextSerial (serial : Nat) : Nat := max ((serial + 1) % 2 ^ 32) 1

structure ClientSurfaceState where
  geometry : Option Rect
  minSize : Size
  maxSize : Size
deriving DecidableEq, Repr

def ClientSurfaceState.default : ClientSurfaceState := ⟨none, ⟨0, 0⟩, ⟨0, 0⟩⟩

structure ToplevelServerState where
  size : Option Size
  bounds : Option Size
  activated : Bool
deriving DecidableEq, Repr

def ToplevelServerState.default : ToplevelServerState := ⟨none, none, false⟩

structure ToplevelConfigure where
  generation : Nat
deriving DecidableEq, Repr

abbrev ToplevelId := Nat

structure ToplevelState where
  pendingClient : ClientSurfaceState
  currentClient : ClientSurfaceState
  pendingServer : Option ToplevelServerState
  lastSent : Option ToplevelServerState
  lastAcked : Option ToplevelConfigure
  configures : ConfigureQueue ToplevelConfigure
  parent : Option ToplevelId
  title : Option String
  appId : Option String
  generation : Nat
  mapped : Bool
  configureReady : Bool
  initialConfigureSent : Bool
  capabilitiesSent : Bool

structure ToplevelEmission where
  serial : Nat
  state : ToplevelServerState
  sendBounds : Bool
  sendCapabilities : Bool
deriving DecidableEq, Repr

inductive ToplevelCommit where
  | applied | unmapped | rejected
deriving DecidableEq, Repr

namespace ToplevelState

def default : ToplevelState where
  pendingClient := ClientSurfaceState.default
  currentClient := ClientSurfaceState.default
  pendingServer := some ToplevelServerState.default
  lastSent := none
  lastAcked := none
  configures := ConfigureQueue.new
  parent := none
  title := none
  appId := none
  generation := 1
  mapped := false
  configureReady := false
  initialConfigureSent := false
  capabilitiesSent := false

variable (role : ToplevelState)

def setWindowGeometry (geometry : Rect) : ToplevelState :=
  { role with pendingClient := { role.pendingClient with geometry := some geometry } }

def setMinSize (size : Size) : ToplevelState :=
  { role with pendingClient := { role.pendingClient with minSize := size } }

def setMaxSize (size : Size) : ToplevelState :=
  { role with pendingClient := { role.pendingClient with maxSize := size } }

/-- The server state that the next configure would carry. -/
def server : ToplevelServerState :=
  (role.pendingServer.or role.lastSent).getD ToplevelServerState.default

def setActivated (activated : Bool) : Bool × ToplevelState :=
  if role.server.activated = activated then (false, role)
  else (true, { role with pendingServer := some { role.server with activated := activated } })

def setLayout (size bounds : Size) : ToplevelState :=
  { role with pendingServer := some { role.server with size := some size, bounds := some bounds } }

/-- The configure to send, under the serial that is next; the pending state is taken in any case. -/
def prepareConfigure (force : Bool) (serial : Nat) : Option ToplevelEmission × ToplevelState :=
  if role.configureReady then
    if !force ∧ role.initialConfigureSent ∧ role.lastSent = some role.server then
      (none, { role with pendingServer := none })
    else
      (some ⟨serial, role.server, role.lastSent.all fun last => last.bounds ≠ role.server.bounds, !role.capabilitiesSent⟩,
        { role with
          pendingServer := none
          configures := role.configures.push serial ⟨role.generation⟩
          initialConfigureSent := true
          capabilitiesSent := true
          lastSent := some role.server })
  else (none, role)

/-- A configure of an earlier mapping is acknowledged without effect. -/
def ackConfigure (serial : Nat) : Option ToplevelState :=
  (role.configures.ack serial).map fun acked =>
    { role with
      configures := acked.2
      lastAcked := if acked.1.generation = role.generation then some acked.1 else role.lastAcked }

def commit (hasBuffer : Bool) : ToplevelCommit × ToplevelState :=
  if hasBuffer ∧ role.lastAcked.all fun configure => configure.generation ≠ role.generation then (.rejected, role)
  else if role.mapped ∧ !hasBuffer then
    (.unmapped, { ToplevelState.default with
      configures := role.configures
      generation := (role.generation + 1) % 2 ^ 64 })
  else
    (.applied, { role with
      currentClient := role.pendingClient
      mapped := hasBuffer
      configureReady := role.configureReady || !hasBuffer })

def setTitle (title : String) : ToplevelState := { role with title := some title }

def setAppId (appId : String) : ToplevelState := { role with appId := some appId }

def setParent (parent : Option ToplevelId) : ToplevelState := { role with parent := parent }

end ToplevelState

/-- What the client has attached for the next commit. -/
inductive BufferAssignment where
  | newBuffer | removed
deriving DecidableEq, Repr

def pendingHasBuffer (pending : Option BufferAssignment) (mapped : Bool) : Bool :=
  match pending with
  | some .newBuffer => true
  | some .removed => false
  | none => mapped

def ToplevelState.preCommit (role : ToplevelState) (pending : Option BufferAssignment) : ToplevelCommit × ToplevelState :=
  role.commit (pendingHasBuffer pending role.mapped)

/-- The `toplevel_pre_commit` hooks of a surface on its role object, one after the other. -/
def invokePreCommitHooks (pending : Option BufferAssignment) :
    Nat → ToplevelState → List ToplevelCommit × ToplevelState
  | 0, role => ([], role)
  | hooks + 1, role =>
    ((role.preCommit pending).1 :: (invokePreCommitHooks pending hooks (role.preCommit pending).2).1,
      (invokePreCommitHooks pending hooks (role.preCommit pending).2).2)

/-- A surface with the permanent role `xdg_toplevel`: its hooks stay when the role object goes. -/
structure RoleSurface where
  serial : Nat
  hooks : Nat
  toplevel : Option ToplevelState

inductive Request where
  | getToplevel
  | destroyToplevel
  | setWindowGeometry (geometry : Rect)
  | setMinSize (size : Size)
  | setMaxSize (size : Size)
  | setTitle (title : String)
  | setAppId (appId : String)
  | setParent (parent : Option ToplevelId)
  | commit (pending : Option BufferAssignment)
  | ackConfigure (serial : Nat)
  /-- The compositor asks for a state. -/
  | setActivated (activated : Bool)
  | setLayout (size bounds : Size)
  | sendConfigure (force : Bool)
  /-- Another role object takes a serial. -/
  | otherConfigure

/-- What the hooks of a commit did, and the configure that has been sent. -/
structure Reply where
  commits : List ToplevelCommit
  configure : Option ToplevelEmission

namespace RoleSurface

def start : RoleSurface := ⟨1, 0, none⟩

variable (s : RoleSurface)

def withRole (f : ToplevelState → ToplevelState) : Reply × Option RoleSurface :=
  (⟨[], none⟩, some { s with toplevel := s.toplevel.map f })

/-- The surface after a request; `None` once a protocol error has disconnected the client. -/
def handle : Request → Reply × Option RoleSurface
  | .getToplevel =>
    match s.toplevel with
    | some _ => (⟨[], none⟩, none)
    | none => (⟨[], none⟩, some { s with hooks := s.hooks + 1, toplevel := some ToplevelState.default })
  | .destroyToplevel => (⟨[], none⟩, some { s with toplevel := none })
  | .setWindowGeometry geometry =>
    if s.toplevel.isSome then s.withRole fun role => role.setWindowGeometry geometry else (⟨[], none⟩, none)
  | .setMinSize size => s.withRole fun role => role.setMinSize size
  | .setMaxSize size => s.withRole fun role => role.setMaxSize size
  | .setTitle title => s.withRole fun role => role.setTitle title
  | .setAppId appId => s.withRole fun role => role.setAppId appId
  | .setParent parent => s.withRole fun role => role.setParent parent
  | .commit pending =>
    match s.toplevel with
    | none => (⟨[], none⟩, some s)
    | some role =>
      let invoked := invokePreCommitHooks pending s.hooks role
      (⟨invoked.1, none⟩,
        if .rejected ∈ invoked.1 then none else some { s with toplevel := some invoked.2 })
  | .ackConfigure serial =>
    match s.toplevel.bind fun role => role.ackConfigure serial with
    | none => (⟨[], none⟩, none)
    | some role => (⟨[], none⟩, some { s with toplevel := some role })
  | .setActivated activated => s.withRole fun role => (role.setActivated activated).2
  | .setLayout size bounds => s.withRole fun role => role.setLayout size bounds
  | .sendConfigure force =>
    match s.toplevel with
    | none => (⟨[], none⟩, some s)
    | some role =>
      let prepared := role.prepareConfigure force s.serial
      (⟨[], prepared.1⟩, some { s with
        toplevel := some prepared.2
        serial := if prepared.1.isSome then nextSerial s.serial else s.serial })
  | .otherConfigure => (⟨[], none⟩, some { s with serial := nextSerial s.serial })

end RoleSurface

end TensorDE.Protocol.XdgShell
