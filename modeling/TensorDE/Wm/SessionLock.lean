import Mathlib.Tactic
import TensorDE.Lib.Maps

set_option linter.dupNamespace false

namespace TensorDE.Wm.SessionLock

open TensorDE.Maps

abbrev LockToken := Nat

abbrev LockSurfaceToken := Nat

inductive LockStatus where
  | pending | locked | finished
deriving DecidableEq, Repr

inductive OutputGate where
  | needsSubmit
  | waitingForVBlank (timeline : Nat)
deriving DecidableEq, Repr

/-- `C` names the connectors of the outputs. -/
inductive SessionPhase (C : Type) where
  | unlocked
  | pending (lock : LockToken) (outputs : Map C OutputGate)
  | locked (controller : Option LockToken)

/-- `I` names the instances of the outputs, `R` the lock resources. -/
structure LockRecord (I R : Type) where
  resource : Option R
  status : LockStatus
  surfaces : Map I LockSurfaceToken

structure LockConfigure where
  serial : Nat
  size : Nat × Nat
deriving DecidableEq, Repr

def maxPendingConfigures : Nat := 16

/-- The filled slots of the array `pending`, oldest first. -/
structure ConfigureQueue where
  pending : List LockConfigure
  lastAcked : Option LockConfigure
  deferred : Option (Nat × Nat)
  bounded : pending.length ≤ maxPendingConfigures

namespace ConfigureQueue

def new : ConfigureQueue := ⟨[], none, none, Nat.zero_le _⟩

variable (q : ConfigureQueue)

def latestSize : Option (Nat × Nat) :=
  (q.pending.getLast?.map LockConfigure.size).or (q.lastAcked.map LockConfigure.size)

def push (serial : Nat) (size : Nat × Nat) : Option LockConfigure × ConfigureQueue :=
  if q.latestSize = some size then (none, { q with deferred := none })
  else if h : q.pending.length = maxPendingConfigures then (none, { q with deferred := some size })
  else
    (some ⟨serial, size⟩, { q with
      pending := q.pending ++ [⟨serial, size⟩]
      bounded := by
        rw [List.length_append, List.length_singleton]
        exact Nat.lt_of_le_of_ne q.bounded h })

/-- An acknowledged configure goes with all that were sent before it; the deferred size comes back
unless it is what the client has been told last. -/
def ack (serial : Nat) : Option (Option (Nat × Nat) × ConfigureQueue) :=
  match q.pending.find? fun configure => configure.serial = serial with
  | none => none
  | some configure =>
    let acked : ConfigureQueue :=
      { pending := q.pending.drop (q.pending.findIdx (fun configure => configure.serial = serial) + 1)
        lastAcked := some configure
        deferred := none
        bounded := by
          rw [List.length_drop]
          exact (Nat.sub_le _ _).trans q.bounded }
    some (q.deferred.filter fun size => acked.latestSize ≠ some size, acked)

end ConfigureQueue

/-- `S` names the lock surface resources and `W` the surfaces. -/
structure LockSurfaceRecord (C I S W : Type) where
  lock : LockToken
  outputInstance : I
  output : C
  resource : S
  surface : W
  configures : ConfigureQueue

structure LockSurfaceRegistration (C I S W : Type) where
  token : LockSurfaceToken
  lock : LockToken
  outputInstance : I
  output : C
  outputIsLive : Bool
  resource : S
  surface : W

structure SessionLockProtocol (C I R S W : Type) where
  phase : SessionPhase C
  locks : Map LockToken (LockRecord I R)
  surfaces : Map LockSurfaceToken (LockSurfaceRecord C I S W)
  surfaceIndex : Map W LockSurfaceToken
  activeOutputIndex : Map C LockSurfaceToken
  nextLock : Nat
  nextSurface : Nat
  nextSerial : Nat

inductive BeginLock where
  | pending | locked | finished
deriving DecidableEq, Repr

inductive DestroyLock where
  | allowed | cancelled | invalid
deriving DecidableEq, Repr

inductive DropLock where
  | none | cancelled | orphaned
deriving DecidableEq, Repr

namespace SessionLockProtocol

variable {C I R S W : Type} [DecidableEq C] [DecidableEq I] [DecidableEq W]

omit [DecidableEq C] [DecidableEq I] [DecidableEq W] in
def new : SessionLockProtocol C I R S W := ⟨.unlocked, Map.empty, Map.empty, Map.empty, Map.empty, 1, 1, 1⟩

variable (p : SessionLockProtocol C I R S W)

/-- `None` where the code panics: the tokens are exhausted. -/
def allocateLock : Option (LockToken × SessionLockProtocol C I R S W) :=
  if p.nextLock + 1 < 2 ^ 64 then some (p.nextLock, { p with nextLock := p.nextLock + 1 }) else none

def allocateSurface :
    Option (LockSurfaceToken × SessionLockProtocol C I R S W) :=
  if p.nextSurface + 1 < 2 ^ 64 then some (p.nextSurface, { p with nextSurface := p.nextSurface + 1 }) else none

def takeSerial : Nat × SessionLockProtocol C I R S W :=
  (p.nextSerial, { p with nextSerial := max ((p.nextSerial + 1) % 2 ^ 32) 1 })

def gates (outputs : List C) : Map C OutputGate :=
  outputs.foldl (fun gates output => gates.insert output .needsSubmit) Map.empty

def registerLock (token : LockToken) (resource : R) (outputs : List C) :
    BeginLock × SessionLockProtocol C I R S W :=
  match p.phase with
  | .unlocked =>
    if (gates outputs).isEmpty then
      (.locked, { p with
        phase := .locked (some token)
        locks := p.locks.insert token ⟨some resource, .locked, Map.empty⟩ })
    else
      (.pending, { p with
        phase := .pending token (gates outputs)
        locks := p.locks.insert token ⟨some resource, .pending, Map.empty⟩ })
  | _ => (.finished, { p with locks := p.locks.insert token ⟨some resource, .finished, Map.empty⟩ })

def isLocked : Bool :=
  match p.phase with
  | .unlocked => false
  | _ => true

def activeLock : Option LockToken :=
  match p.phase with
  | .pending lock _ => some lock
  | .locked controller => controller
  | .unlocked => none

def canAddSurface (lock : LockToken) (output : I) : Bool :=
  match p.locks.find lock with
  | some record => (record.surfaces.find output).isNone
  | none => false

def insertSurface (registration : LockSurfaceRegistration C I S W) :
    Bool × SessionLockProtocol C I R S W :=
  let active := registration.outputIsLive && p.activeLock == some registration.lock
  match p.locks.find registration.lock with
  | none => (false, p)
  | some record =>
    (active, { p with
      locks := p.locks.insert registration.lock { record with
        surfaces := record.surfaces.insert registration.outputInstance registration.token }
      surfaceIndex := p.surfaceIndex.insert registration.surface registration.token
      activeOutputIndex :=
        if active then p.activeOutputIndex.insert registration.output registration.token else p.activeOutputIndex
      surfaces := p.surfaces.insert registration.token
        ⟨registration.lock, registration.outputInstance, registration.output, registration.resource,
          registration.surface, ConfigureQueue.new⟩ })

def configureSurface (alive : S → Bool) (token : LockSurfaceToken)
    (size : Nat × Nat) : Option (S × LockConfigure) × SessionLockProtocol C I R S W :=
  let (serial, p) := p.takeSerial
  match p.surfaces.find token with
  | none => (none, p)
  | some record =>
    let pushed := record.configures.push serial size
    ((pushed.1.filter fun _ => alive record.resource).map fun configure => (record.resource, configure),
      { p with surfaces := p.surfaces.insert token { record with configures := pushed.2 } })

def ackConfigure (alive : S → Bool) (token : LockSurfaceToken) (serial : Nat) :
    Option (Option (S × LockConfigure)) × SessionLockProtocol C I R S W :=
  match p.surfaces.find token with
  | none => (none, p)
  | some record =>
    match record.configures.ack serial with
    | none => (none, p)
    | some acked =>
      let p := { p with surfaces := p.surfaces.insert token { record with configures := acked.2 } }
      match acked.1 with
      | none => (some none, p)
      | some size => (some (p.configureSurface alive token size).1, (p.configureSurface alive token size).2)

def removeUnusedLock (token : LockToken) : SessionLockProtocol C I R S W :=
  match p.locks.find token with
  | some record =>
    if record.resource.isNone && record.surfaces.isEmpty then { p with locks := p.locks.erase token } else p
  | none => p

def forgetSurface (lock : LockToken) (output : I) (token : LockSurfaceToken) :
    SessionLockProtocol C I R S W :=
  match p.locks.find lock with
  | some record =>
    if record.surfaces.find output = some token then
      { p with locks := p.locks.insert lock { record with surfaces := record.surfaces.erase output } }
    else p
  | none => p

def eraseWhen {K : Type} [DecidableEq K] (m : Map K LockSurfaceToken) (k : K) (token : LockSurfaceToken) :
    Map K LockSurfaceToken :=
  if m.find k = some token then m.erase k else m

/-- The surface that has gone, and whether its lock is the active one. -/
def removeSurfaceToken (token : LockSurfaceToken) :
    Option (W × Bool) × SessionLockProtocol C I R S W :=
  match p.surfaces.find token with
  | none => (none, p)
  | some record =>
    let p := { p with
      surfaces := p.surfaces.erase token
      surfaceIndex := eraseWhen p.surfaceIndex record.surface token
      activeOutputIndex := eraseWhen p.activeOutputIndex record.output token }
    let p := p.forgetSurface record.lock record.outputInstance token
    (some (record.surface, p.activeLock == some record.lock), p.removeUnusedLock record.lock)

def removeWlSurface (surface : W) :
    Option (W × Bool) × SessionLockProtocol C I R S W :=
  match p.surfaceIndex.find surface with
  | none => (none, p)
  | some token => p.removeSurfaceToken token

def deactivate (surfaces : Map LockSurfaceToken (LockSurfaceRecord C I S W)) (index : Map C LockSurfaceToken) :
    List LockSurfaceToken → Map C LockSurfaceToken
  | [] => index
  | token :: rest =>
    match surfaces.find token with
    | some record => eraseWhen (deactivate surfaces index rest) record.output token
    | none => deactivate surfaces index rest

def deactivateLockSurfaces (token : LockToken) : SessionLockProtocol C I R S W :=
  match p.locks.find token with
  | none => p
  | some record => { p with activeOutputIndex := deactivate p.surfaces p.activeOutputIndex record.surfaces.values }

def setStatus (token : LockToken) (status : LockStatus) :
    SessionLockProtocol C I R S W :=
  { p with locks := p.locks.modify token fun record => { record with status := status } }

def pendingLock : Option LockToken :=
  match p.phase with
  | .pending lock _ => some lock
  | _ => none

def controller (p : SessionLockProtocol C I R S W) : Option LockToken :=
  match p.phase with
  | .locked controller => controller
  | _ => none

def requestDestroy (token : LockToken) :
    DestroyLock × SessionLockProtocol C I R S W :=
  match (p.locks.find token).map LockRecord.status with
  | none => (.allowed, p)
  | some .locked => (.invalid, p)
  | some .pending =>
    let finished := p.setStatus token .finished
    if p.pendingLock = some token then
      (.cancelled, { finished with phase := .unlocked }.deactivateLockSurfaces token)
    else (.allowed, finished)
  | some .finished => (.allowed, p)

def requestUnlock (token : LockToken) : Bool × SessionLockProtocol C I R S W :=
  if (p.locks.find token).map LockRecord.status ≠ some .locked ∨ p.controller ≠ some token then (false, p)
  else (true, { p.setStatus token .finished with phase := .unlocked }.deactivateLockSurfaces token)

def dropLockResource (token : LockToken) :
    DropLock × SessionLockProtocol C I R S W :=
  match p.locks.find token with
  | none => (.none, p)
  | some record =>
    let cleared := { p with locks := p.locks.insert token { record with resource := none } }
    if record.status = .pending ∧ p.pendingLock = some token then
      (.cancelled, ({ cleared.setStatus token .finished with
        phase := .unlocked }.deactivateLockSurfaces token).removeUnusedLock token)
    else if record.status = .locked ∧ p.controller = some token then
      (.orphaned, ({ cleared with phase := .locked none }.deactivateLockSurfaces token).removeUnusedLock token)
    else (.none, cleared.removeUnusedLock token)

def frameSubmitted (output : C) (timeline : Nat) : SessionLockProtocol C I R S W :=
  match p.phase with
  | .pending lock outputs =>
    if outputs.find output = some .needsSubmit then
      { p with phase := .pending lock (outputs.insert output (.waitingForVBlank timeline)) }
    else p
  | _ => p

/-- The last gate has gone: the lock is confirmed, to a resource that is alive. -/
def confirm (alive : R → Bool) (lock : LockToken) :
    Option R × SessionLockProtocol C I R S W :=
  ((p.locks.find lock).bind fun record => record.resource.filter alive,
    { p.setStatus lock .locked with phase := .locked (some lock) })

def frameCompleted (alive : R → Bool) (output : C) (timeline : Nat) :
    Option R × SessionLockProtocol C I R S W :=
  match p.phase with
  | .pending lock outputs =>
    if outputs.find output ≠ some (.waitingForVBlank timeline) then (none, p)
    else if (outputs.erase output).isEmpty then p.confirm alive lock
    else (none, { p with phase := .pending lock (outputs.erase output) })
  | _ => (none, p)

def outputAdded (output : C) : SessionLockProtocol C I R S W :=
  match p.phase with
  | .pending lock outputs => { p with phase := .pending lock (outputs.insert output .needsSubmit) }
  | _ => p

def configureOutput (output : C) (size : Nat × Nat) :
    SessionLockProtocol C I R S W :=
  match p.activeOutputIndex.find output with
  | none => p
  | some token =>
    let (serial, p) := p.takeSerial
    match p.surfaces.find token with
    | none => { p with activeOutputIndex := p.activeOutputIndex.erase output }
    | some record =>
      { p with surfaces := p.surfaces.insert token { record with configures := (record.configures.push serial size).2 } }

/-- The surface that was shown on an output; its lock may show another one there later. -/
def clearOutput (output : C) : Option W × SessionLockProtocol C I R S W :=
  match p.activeOutputIndex.find output with
  | none => (none, p)
  | some token =>
    let erased := { p with activeOutputIndex := p.activeOutputIndex.erase output }
    match p.surfaces.find token with
    | none => (none, erased)
    | some record => (some record.surface, erased.forgetSurface record.lock record.outputInstance token)

/-- `RemovedOutput`: the surface that was shown on the output, and the lock that its removal
confirms. -/
def outputRemoved (alive : R → Bool) (output : C) :
    (Option W × Option R) × SessionLockProtocol C I R S W :=
  let cleared := p.clearOutput output
  match cleared.2.phase with
  | .pending lock outputs =>
    if (outputs.erase output).isEmpty then
      ((cleared.1, (cleared.2.confirm alive lock).1), (cleared.2.confirm alive lock).2)
    else ((cleared.1, none), { cleared.2 with phase := .pending lock (outputs.erase output) })
  | _ => ((cleared.1, none), cleared.2)

def surfaceForOutput (output : C) : Option W :=
  p.activeLock.bind fun lock => (p.activeOutputIndex.find output).bind fun token =>
    (p.surfaces.find token).bind fun record => if record.lock = lock then some record.surface else none

end SessionLockProtocol

end TensorDE.Wm.SessionLock
