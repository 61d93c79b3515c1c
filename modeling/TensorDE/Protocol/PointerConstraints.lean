import TensorDE.Lib.Maps

set_option linter.dupNamespace false

namespace TensorDE.Protocol.PointerConstraints

open Maps

inductive ConstraintKind where
  | confined
  | locked
deriving DecidableEq

inductive ConstraintLifetime where
  | oneShot
  | persistent
deriving DecidableEq

/-- The events of the two kinds of constraint resources. -/
inductive ConstraintEvent where
  | confined
  | unconfined
  | locked
  | unlocked
deriving DecidableEq

def ConstraintEvent.activates : ConstraintEvent → Bool
  | .confined | .locked => true
  | .unconfined | .unlocked => false

/-- The constraint's resource, with the surface and the kind its user data holds. -/
structure ConstraintHandle (S R : Type) where
  kind : ConstraintKind
  resource : R
  surface : S
deriving DecidableEq

def ConstraintHandle.activated {S R : Type} (handle : ConstraintHandle S R) : ConstraintEvent :=
  match handle.kind with
  | .confined => .confined
  | .locked => .locked

def ConstraintHandle.deactivated {S R : Type} (handle : ConstraintHandle S R) : ConstraintEvent :=
  match handle.kind with
  | .confined => .unconfined
  | .locked => .unlocked

structure Constraint (S R P G : Type) where
  handle : ConstraintHandle S R
  lifetime : ConstraintLifetime
  region : G
  pendingRegion : Option G
  cursorHint : Option P
  pendingCursorHint : Option P
deriving DecidableEq

structure ActiveConstraint (S P : Type) where
  surface : S
  origin : P
deriving DecidableEq

inductive ConstraintMotion (P : Type) where
  | free (location : P)
  | confined (location : P)
  | locked (location : P)

def ConstraintMotion.location {P : Type} : ConstraintMotion P → P
  | .free location | .confined location | .locked location => location

/-- What the code asks of points, regions and the space of the outputs. -/
structure Plane (P G B : Type) where
  /-- A global location seen from an origin. -/
  relative : P → P → P
  /-- A local location seen from everywhere. -/
  absolute : P → P → P
  contains : G → P → Bool
  confine : G → P → P → Option P
  isFinite : P → Bool
  differs : P → P → Bool
  zero : P
  constrainLocation : B → P → P

/-- Whether a surface's weak handle can be upgraded, and if not, why. -/
inductive SurfaceStatus where
  | alive
  | destroyed
  | orphaned
deriving DecidableEq

/-- What the display server keeps of a constraint's resource, and the lifetime its creation asked for. -/
structure ConstraintResource (S : Type) where
  surface : S
  kind : ConstraintKind
  lifetime : Option ConstraintLifetime
  alive : Bool
deriving DecidableEq

structure State (S R P G : Type) where
  constraints : Map S (Constraint S R P G)
  active : Option (ActiveConstraint S P)
  surfaces : Map S SurfaceStatus
  resources : Map R (ConstraintResource S)
  /-- The pointer's location in the input seat. -/
  location : Option P
  /-- The events that the clients got, oldest first. -/
  log : List (R × ConstraintEvent)

variable {S R P G B : Type}

def Constraint.globalHint (plane : Plane P G B) (constraint : Constraint S R P G) (origin : P) : Option P :=
  match constraint.handle.kind with
  | .locked => constraint.cursorHint.map (plane.absolute origin)
  | .confined => none

def Constraint.commit (constraint : Constraint S R P G) : Constraint S R P G :=
  { constraint with
    region := constraint.pendingRegion.getD constraint.region
    pendingRegion := none
    cursorHint := constraint.pendingCursorHint.or constraint.cursorHint
    pendingCursorHint := none }

namespace State

def initial : State S R P G := ⟨.empty, none, .empty, .empty, none, []⟩

variable [DecidableEq S] [DecidableEq R] (s : State S R P G)

def send (resource : R) (event : ConstraintEvent) : State S R P G :=
  match s.resources.find resource with
  | some ⟨_, _, _, true⟩ => { s with log := s.log ++ [(resource, event)] }
  | _ => s

def upgrades (surface : S) : Bool := decide (s.surfaces.find surface = some .alive)

def attach (handle : ConstraintHandle S R) (lifetime : ConstraintLifetime) (region : G) :
    State S R P G :=
  match s.constraints.find handle.surface with
  | some _ => s
  | none =>
    { s with constraints := s.constraints.insert handle.surface ⟨handle, lifetime, region, none, none, none⟩ }

def setRegion (surface : S) (resource : R) (kind : ConstraintKind) (region : G) : State S R P G :=
  { s with
    constraints := s.constraints.modify surface fun constraint =>
      if constraint.handle.kind = kind ∧ constraint.handle.resource = resource then
        { constraint with pendingRegion := some region }
      else constraint }

variable (plane : Plane P G B)

def setCursorHint (s : State S R P G) (surface : S) (resource : R) (hint : P) : State S R P G :=
  { s with
    constraints := s.constraints.modify surface fun constraint =>
      if constraint.handle.kind = .locked ∧ constraint.handle.resource = resource ∧ plane.isFinite hint then
        { constraint with pendingCursorHint := some hint }
      else constraint }

def commit (s : State S R P G) (surface : S) : State S R P G :=
  { s with constraints := s.constraints.modify surface Constraint.commit }

def constrainMotion (s : State S R P G) (current proposed : P) : ConstraintMotion P :=
  match s.active with
  | none => .free proposed
  | some active =>
    match s.constraints.find active.surface with
    | none => .free proposed
    | some constraint =>
      if constraint.handle.kind = .locked then .locked current
      else
        match plane.confine constraint.region (plane.relative current active.origin)
            (plane.relative proposed active.origin) with
        | none => .confined current
        | some place => .confined (plane.absolute active.origin place)

def activeMatches (surface : Option S) : Bool :=
  match s.active, surface with
  | some active, some surface => decide (surface = active.surface)
  | _, _ => false

def removeEntry (surface : S) : State S R P G :=
  { s with constraints := s.constraints.erase surface }

def expire (surface : S) (constraint : Constraint S R P G) : State S R P G :=
  if constraint.lifetime = .oneShot ∧ s.upgrades constraint.handle.surface then s.removeEntry surface else s

def deactivateActive (s : State S R P G) : State S R P G × Option P :=
  match s.active with
  | none => (s, none)
  | some active =>
    match s.constraints.find active.surface with
    | none => ({ s with active := none }, none)
    | some constraint =>
      ((State.send { s with active := none } constraint.handle.resource constraint.handle.deactivated).expire
          active.surface constraint,
        constraint.globalHint plane active.origin)

/-- Whether the active constraint may stay, which is when the pointer is in its region on its surface. -/
def activeValid (s : State S R P G) (focus : Option (S × P)) (location : P) : Bool :=
  match s.active, focus with
  | some active, some (surface, origin) =>
    decide (surface = active.surface) &&
      (s.constraints.find active.surface).any fun constraint =>
        plane.contains constraint.region (plane.relative location origin)
  | _, _ => false

/-- The constraint of the focused surface becomes active when the pointer is in its region. -/
def activateFocused (s : State S R P G) (focus : Option (S × P)) (location : P) : State S R P G :=
  match focus with
  | none => s
  | some (surface, origin) =>
    match s.constraints.find surface with
    | none => s
    | some constraint =>
      if plane.contains constraint.region (plane.relative location origin) then
        { s.send constraint.handle.resource constraint.handle.activated with active := some ⟨surface, origin⟩ }
      else s

def focusChanged (s : State S R P G) (focus : Option (S × P)) (location : P) :
    State S R P G × Option P :=
  if s.activeValid plane focus location then
    ({ s with
        active := s.active.map fun active => { active with origin := (focus.map Prod.snd).getD active.origin } }, none)
  else
    match s.deactivateActive plane with
    | (t, some warp) => (t, some warp)
    | (t, none) => (t.activateFocused plane focus location, none)

def detachResource (s : State S R P G) (surface : S) (resource : R) : State S R P G × Option P :=
  match s.constraints.find surface with
  | none => (s, none)
  | some constraint =>
    if constraint.handle.resource = resource then
      match s.active with
      | none => (s.removeEntry surface, none)
      | some active =>
        if active.surface = surface then
          (State.removeEntry { s with active := none } surface, constraint.globalHint plane active.origin)
        else (s.removeEntry surface, none)
    else (s, none)

def removeSurface (s : State S R P G) (surface : S) : State S R P G :=
  match s.active with
  | none => s.removeEntry surface
  | some active =>
    if active.surface = surface then (s.deactivateActive plane).1.removeEntry surface else s.removeEntry surface

/-- The pointer goes to a hint, within the space of the outputs. -/
def applyHint (s : State S R P G) (hint : Option P) (space : Option B) : State S R P G :=
  match hint, s.location with
  | some location, some _ =>
    { s with location := some (space.elim location fun bounds => plane.constrainLocation bounds location) }
  | _, _ => s

def changeFocus (s : State S R P G) (focus : Option (S × P)) (location : P) (space : Option B) :
    State S R P G :=
  (s.focusChanged plane focus location).1.applyHint plane (s.focusChanged plane focus location).2 space

def reconcile (s : State S R P G) (focus : Option (S × P)) (space : Option B) : State S R P G :=
  match s.location with
  | none => s.changeFocus plane none plane.zero space
  | some location => s.changeFocus plane focus location space

/-- The seat leaves its focus, and a hint of the constraint that ends with it is not used. -/
def clearPointerFocus (s : State S R P G) : State S R P G :=
  match s.location with
  | none => s
  | some location => (s.focusChanged plane none location).1

def emitsMotion (s : State S R P G) (previous : P) (focus : Option (S × P)) :
    ConstraintMotion P → Bool
  | .free _ => true
  | .confined planned => s.activeMatches (focus.map Prod.fst) && plane.differs planned previous
  | .locked _ => false

/-- A motion of the pointer. The seat may have another focus than the one the motion was delivered to,
and `kept` tells that it has not. -/
def forwardPointerLocation (s : State S R P G) (proposed : P) (dnd : Bool)
    (focus : Option (S × P)) (kept : Bool) (space : Option B) : State S R P G :=
  match s.location with
  | none => s
  | some previous =>
    if dnd then { s with location := some (s.constrainMotion plane previous proposed).location }
    else if s.emitsMotion plane previous focus (s.constrainMotion plane previous proposed) then
      changeFocus plane { s with location := some (s.constrainMotion plane previous proposed).location }
        (if kept then focus else none) (s.constrainMotion plane previous proposed).location space
    else s

end State

/-- What can happen to the constraints, as far as the display server lets it happen. -/
inductive Event (S R P G B : Type) where
  | createSurface (surface : S)
  /-- A request for a constraint, of a pointer that the seat may have given up. -/
  | lockOrConfine (resource : R) (surface : S) (kind : ConstraintKind) (lifetime : Option ConstraintLifetime)
      (pointerActive : Bool) (region : G)
  | setRegion (resource : R) (region : G)
  | setCursorPositionHint (resource : R) (hint : P)
  | commit (surface : S)
  | reconcile (focus : Option (S × P)) (space : Option B)
  | clearPointerFocus
  | motion (proposed : P) (dnd : Bool) (focus : Option (S × P)) (kept : Bool) (space : Option B)
  | destroyResource (resource : R) (space : Option B)
  | destroySurface (surface : S)
  /-- The client of a surface is gone, and with it the surface and all its constraints. -/
  | dropClient (surface : S)
  | removeSurface (surface : S)
  | setPointerLocation (location : P)

namespace State

variable [DecidableEq S] [DecidableEq R] (s : State S R P G)

/-- The seat forgets a destroyed surface before anything looks at its focus again. -/
def mayFocus (focus : Option (S × P)) : Bool :=
  focus.all fun at_ => decide (s.surfaces.find at_.1 = some .alive ∨ s.surfaces.find at_.1 = some .orphaned)

def live (resource : R) : Option (ConstraintResource S) :=
  (s.resources.find resource).filter ConstraintResource.alive

def lockOrConfine (resource : R) (surface : S) (kind : ConstraintKind)
    (lifetime : Option ConstraintLifetime) (pointerActive : Bool) (region : G) : State S R P G :=
  match lifetime with
  | some lifetime => if pointerActive then s.attach ⟨kind, resource, surface⟩ lifetime region else s
  | none => s

def step (plane : Plane P G B) (s : State S R P G) : Event S R P G B → Option (State S R P G)
  | .createSurface surface =>
    if s.surfaces.find surface = none then some { s with surfaces := s.surfaces.insert surface .alive } else none
  | .lockOrConfine resource surface kind lifetime pointerActive region =>
    if s.resources.find resource = none ∧ s.surfaces.find surface = some .alive then
      some (lockOrConfine { s with resources := s.resources.insert resource ⟨surface, kind, lifetime, true⟩ }
        resource surface kind lifetime pointerActive region)
    else none
  | .setRegion resource region =>
    (s.live resource).map fun r =>
      if s.upgrades r.surface then s.setRegion r.surface resource r.kind region else s
  | .setCursorPositionHint resource hint =>
    (s.live resource).map fun r =>
      if s.upgrades r.surface then s.setCursorHint plane r.surface resource hint else s
  | .commit surface => some (s.commit surface)
  | .reconcile focus space => if s.mayFocus focus then some (s.reconcile plane focus space) else none
  | .clearPointerFocus => some (s.clearPointerFocus plane)
  | .motion proposed dnd focus kept space =>
    if s.mayFocus focus then some (s.forwardPointerLocation plane proposed dnd focus kept space) else none
  | .destroyResource resource space =>
    (s.live resource).map fun r =>
      let dead := { s with resources := s.resources.modify resource fun r => { r with alive := false } }
      if s.upgrades r.surface then
        (dead.detachResource plane r.surface resource).1.applyHint plane (dead.detachResource plane r.surface resource).2 space
      else dead
  | .destroySurface surface =>
    if s.upgrades surface then some { s with surfaces := s.surfaces.insert surface .destroyed } else none
  | .dropClient surface =>
    if s.upgrades surface then
      some { s with
        surfaces := s.surfaces.insert surface .orphaned
        resources := s.resources.mapValues fun _ r => if r.surface = surface then { r with alive := false } else r }
    else none
  | .removeSurface surface =>
    if s.surfaces.find surface = some .destroyed ∨ s.surfaces.find surface = some .orphaned then
      some (s.removeSurface plane surface)
    else none
  | .setPointerLocation location => some { s with location := some location }

end State

end TensorDE.Protocol.PointerConstraints
