import TensorDE.Protocol.Selection

set_option linter.dupNamespace false

namespace TensorDE.Protocol.Selection

open TensorDE.Maps

structure CoreDndSource where
  token : SourceToken
  alive : Bool
  version : Nat
  mimeTypes : List String
  actions : DndAction
  cancelled : Bool
  finished : Bool

/-- A drag with a data source, or one that stays within the client of the surface it came from. -/
inductive DndSource (W : Type) where
  | coreSource (source : CoreDndSource)
  | localSource (origin : W) (alive : Bool)

structure DndOfferState where
  active : Bool
  dropped : Bool
  accepted : Bool
  finished : Bool
  requiresAccept : Bool
  requiresAction : Bool
  sourceActions : DndAction
  chosenAction : DndAction
deriving DecidableEq, Repr

namespace DndOfferState

variable (state : DndOfferState)

def validated : Bool :=
  state.active && (!state.requiresAccept || state.accepted) && (!state.requiresAction || state.chosenAction ≠ 0)

def readyToFinish : Bool := state.validated && state.dropped && !state.finished

def inactive : DndOfferState :=
  { state with active := false, accepted := false, chosenAction := 0 }

end DndOfferState

/-- What the offer objects of one entered surface share. -/
structure DndOffer where
  state : DndOfferState
  source : Option DragId
  targetSource : Option DragId
  mimeTypes : List String

inductive DragEvent where
  | target (mimeType : Option String)
  | action (action : DndAction)
  | send (mimeType : String)
  | dropPerformed
  | finished
  | cancelled
deriving DecidableEq, Repr

structure Entered (W : Type) where
  surface : W
  versions : List Nat
  sameClient : Bool
  knownClient : Bool

/-- The selections with the shared handles of the drags and of the offers. `log` has what each source
was sent and `left` the offers that a drag has left. -/
structure World (C W : Type) where
  selection : SelectionProtocol C W
  drags : Map DragId (DndSource W)
  offers : Map OfferId DndOffer
  nextDrag : Nat
  nextOffer : Nat
  log : DragId → List DragEvent
  left : List OfferId

def validSingleAction (action : DndAction) : Bool :=
  action = 0 || action = .copy || action = .move || action = .ask

def contains (actions action : DndAction) : Bool := actions &&& action = action

def chooseAction (possible preferred : DndAction) : DndAction :=
  if preferred ≠ 0 ∧ contains possible preferred then preferred
  else if contains possible .copy then .copy
  else if contains possible .move then .move
  else if contains possible .ask then .ask
  else 0

def negotiateAction (source destination preferred : DndAction) : Option DndAction :=
  if !validSingleAction preferred ∨ preferred ≠ 0 ∧ (!contains source preferred ∨ !contains destination preferred) then none
  else some (chooseAction (source &&& destination) preferred)

namespace World

variable {C W : Type}

def start : World C W := ⟨SelectionProtocol.new, Map.empty, Map.empty, 0, 0, fun _ => [], []⟩

variable (w : World C W)

def tell (drag : DragId) (e : DragEvent) : World C W :=
  { w with log := fun d => if d = drag then w.log d ++ [e] else w.log d }

/-- A call of the source of a drag, which means something to a core source only. -/
def withCore (drag : DragId) (f : CoreDndSource → World C W) : World C W :=
  match w.drags.find drag with
  | some (.coreSource source) => f source
  | _ => w

/-- The resource is there, and new enough for the events of drags. -/
def hears (source : CoreDndSource) : Bool := source.alive && actionNegotiationVersion ≤ source.version

def alive (w : World C W) (drag : DragId) : Bool :=
  match w.drags.find drag with
  | some (.coreSource source) => source.alive && !source.cancelled
  | some (.localSource _ alive) => alive
  | none => false

def chooseSourceAction (drag : DragId) (action : DndAction) : World C W :=
  w.withCore drag fun source => if hears source then w.tell drag (.action action) else w

def sendSource (drag : DragId) (mimeType : String) : World C W :=
  w.withCore drag fun source =>
    if w.alive drag ∧ mimeType ∈ source.mimeTypes then w.tell drag (.send mimeType) else w

def dropPerformed (w : World C W) (drag : DragId) : World C W :=
  w.withCore drag fun source => if hears source then w.tell drag .dropPerformed else w

def setCore (drag : DragId) (source : CoreDndSource) : World C W :=
  { w with drags := w.drags.insert drag (.coreSource source) }

def cancelSource (drag : DragId) : World C W :=
  w.withCore drag fun source =>
    let w := w.setCore drag { source with cancelled := true }
    if !source.cancelled ∧ hears source then w.tell drag .cancelled else w

def finishSource (drag : DragId) : World C W :=
  w.withCore drag fun source =>
    let w := w.setCore drag { source with finished := true }
    if !source.finished ∧ hears source then w.tell drag .finished else w

def setOffer (id : OfferId) (offer : DndOffer) : World C W :=
  { w with offers := w.offers.insert id offer }

def disable (id : OfferId) : World C W :=
  match w.offers.find id with
  | none => w
  | some offer =>
    let w := { w.setOffer id { offer with state := offer.state.inactive, source := none } with left := id :: w.left }
    match offer.source with
    | some drag => w.chooseSourceAction drag 0
    | none => w

def disableTarget (target : Option (DndTarget W)) : World C W :=
  match target.bind DndTarget.offer with
  | some id => w.disable id
  | none => w

def addOffer (offer : DndOffer) : Option OfferId × World C W :=
  (some w.nextOffer, { w.setOffer w.nextOffer offer with nextOffer := w.nextOffer + 1 })

def enterOffer (drag : DragId) (entered : Entered W) : Option OfferId × World C W :=
  if entered.versions = [] ∨ !w.alive drag then (none, w)
  else
    match w.drags.find drag with
    | none => (none, w)
    | some (.localSource _ _) =>
      if entered.sameClient then
        w.addOffer ⟨⟨true, false, true, false, false, false, 0, 0⟩, some drag, none, []⟩
      else (none, w)
    | some (.coreSource source) =>
      let requiresAction := entered.versions.any fun version => actionNegotiationVersion ≤ version
      if entered.knownClient then
        w.addOffer ⟨⟨true, false, !requiresAction, false, requiresAction, requiresAction, source.actions, 0⟩, some drag,
          some drag, source.mimeTypes⟩
      else (none, w)

variable [DecidableEq C] [DecidableEq W]

def startCoreDnd (client : C) (token : SourceToken) (origin : W) : World C W :=
  let begun := w.selection.beginCoreDnd client token origin w.nextDrag
  match begun.1.error, w.selection.sources.find token with
  | none, some record =>
    { w with
      selection := begun.2
      nextDrag := w.nextDrag + 1
      drags := w.drags.insert w.nextDrag (.coreSource ⟨token, true, record.resource.version, record.mimeTypes,
        SelectionProtocol.dragActions record, false, false⟩) }
  | _, _ => w

def startLocalDnd (origin : W) : World C W :=
  let begun := w.selection.beginLocalDnd origin w.nextDrag
  match begun.1.error with
  | none =>
    { w with
      selection := begun.2
      nextDrag := w.nextDrag + 1
      drags := w.drags.insert w.nextDrag (.localSource origin true) }
  | some _ => w

def dndMotion (target : Option (Entered W)) : World C W :=
  match w.selection.activeDnd with
  | none => w
  | some active =>
    if active.target.map DndTarget.surface = target.map Entered.surface then w
    else
      let w := w.disableTarget active.target
      match target with
      | none => { w with selection := w.selection.setTarget none }
      | some entered =>
        let offered := w.enterOffer active.source entered
        { offered.2 with selection := offered.2.selection.setTarget (some ⟨entered.surface, offered.1⟩) }

def dropOffer (id : OfferId) : Bool × World C W :=
  match w.offers.find id with
  | none => (false, w)
  | some offer => (offer.state.validated, w.setOffer id { offer with state := { offer.state with dropped := true } })

def dropDnd : World C W :=
  match w.selection.activeDnd with
  | none => w
  | some active =>
    let w := { w with selection := w.selection.takeDnd.2 }
    let dropped := ((active.target.bind DndTarget.offer).map fun id => w.dropOffer id).getD (false, w)
    if dropped.1 then dropped.2.dropPerformed active.source else dropped.2.cancelSource active.source

def cancelDnd : World C W :=
  match w.selection.activeDnd with
  | none => w
  | some active =>
    ({ w with selection := w.selection.takeDnd.2 }.disableTarget active.target).cancelSource active.source

def dead (token : SourceToken) : DndSource W → DndSource W
  | .coreSource source => .coreSource (if source.token = token then { source with alive := false } else source)
  | .localSource origin alive => .localSource origin alive

def disconnect (w : World C W) (token : SourceToken) : World C W :=
  { w with selection := w.selection.disconnect token, drags := w.drags.mapValues fun _ source => dead token source }

def sourceDestroyed (w : World C W) (token : SourceToken) : World C W :=
  let gone := { w with drags := w.drags.mapValues fun _ source => dead token source }
  let destroyed := gone.selection.sourceDestroyed token
  if destroyed.1 then { gone with selection := destroyed.2 }.cancelDnd else { gone with selection := destroyed.2 }

def gone (surface : W) : DndSource W → DndSource W
  | .localSource origin alive => .localSource origin (alive && origin ≠ surface)
  | .coreSource source => .coreSource source

def surfaceDestroyed (surface : W) : World C W :=
  let gone := { w with drags := w.drags.mapValues fun _ source => gone surface source }
  if (gone.selection.activeDnd.any fun active => active.origin = surface) then gone.cancelDnd else gone

def accept (id : OfferId) (mimeType : Option String) : World C W :=
  match w.offers.find id with
  | none => w
  | some offer =>
    if !offer.state.active ∨ offer.state.finished then w
    else
      let accepted := mimeType.filter fun mime => mime ∈ offer.mimeTypes
      let w := w.setOffer id { offer with state := { offer.state with accepted := accepted.isSome } }
      match offer.targetSource with
      | none => w
      | some drag => w.withCore drag fun source => if source.alive then w.tell drag (.target accepted) else w

def receive (id : OfferId) (mimeType : String) : World C W :=
  match w.offers.find id with
  | none => w
  | some offer =>
    if offer.state.active ∧ mimeType ∈ offer.mimeTypes then
      match offer.source with
      | none => w
      | some drag => if w.alive drag then w.sendSource drag mimeType else w
    else w

def finish (id : OfferId) : World C W :=
  match w.offers.find id with
  | none => w
  | some offer =>
    if !offer.state.readyToFinish then w
    else
      let w := w.setOffer id { offer with state := { offer.state with active := false, finished := true }, source := none }
      match offer.source with
      | none => w
      | some drag => w.finishSource drag

/-- The actions are missing where a mask has unknown bits. -/
def setActions (id : OfferId) (actions preferred : Option DndAction) : World C W :=
  match w.offers.find id, actions, preferred with
  | some offer, some actions, some preferred =>
    if !offer.state.active ∨ offer.state.finished then w
    else
      match negotiateAction offer.state.sourceActions actions preferred with
      | none => w
      | some chosen =>
        if chosen = offer.state.chosenAction then w
        else
          let w := w.setOffer id { offer with state := { offer.state with chosenAction := chosen } }
          match offer.source with
          | none => w
          | some drag => w.chooseSourceAction drag chosen
  | _, _, _ => w

def offerDestroyed (id : OfferId) : World C W :=
  match w.offers.find id with
  | none => w
  | some offer =>
    if offer.state.finished then w
    else if offer.state.dropped then
      let w := w.setOffer id { offer with state := offer.state.inactive, source := none }
      match offer.source with
      | none => w
      | some drag => w.cancelSource drag
    else w.setOffer id { offer with state := offer.state.inactive }

end World

end TensorDE.Protocol.Selection
