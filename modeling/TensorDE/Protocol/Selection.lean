import Mathlib.Tactic
import TensorDE.Lib.Maps

set_option linter.dupNamespace false

namespace TensorDE.Protocol.Selection

open TensorDE.Maps

abbrev SourceToken := Nat

/-- The bits of `wl_data_device_manager.dnd_action`. -/
abbrev DndAction := BitVec 3

def DndAction.copy : DndAction := 1#3

def DndAction.move : DndAction := 2#3

def DndAction.ask : DndAction := 4#3

def maxMimeTypes : Nat := 256

def actionNegotiationVersion : Nat := 3

inductive SelectionTarget where
  | clipboard | primary
deriving DecidableEq, Repr

inductive SourceKind where
  | core | primary | wlrDataControl | extDataControl
deriving DecidableEq, Repr

inductive SourceUse where
  | selection (target : SelectionTarget)
  | dnd
deriving DecidableEq, Repr

/-- The resource of a source; it is dead once its client has gone. -/
structure SourceResource where
  alive : Bool
  version : Nat
deriving DecidableEq, Repr

/-- `C` names the clients. -/
structure Source (C : Type) where
  client : C
  kind : SourceKind
  resource : SourceResource
  mimeTypes : List String
  use : Option SourceUse
  coreActionsSet : Bool
  coreActions : DndAction

def Source.frozen {C : Type} (source : Source C) : Bool := source.use.isSome

inductive OfferMimeError where
  | frozen | unknownSource
deriving DecidableEq, Repr

inductive SetSelectionError where
  | notFocused | unknownSource | wrongSource | usedSource | dndActions
deriving DecidableEq, Repr

inductive SetActionsError where
  | invalidMask | invalidSource
deriving DecidableEq, Repr

inductive RequestError where
  | offerMime (error : OfferMimeError)
  | setActions (error : SetActionsError)
  | setSelection (error : SetSelectionError)
deriving DecidableEq, Repr

inductive Sent where
  | cancelled (source : SourceToken)
  | send (source : SourceToken) (mimeType : String)
deriving DecidableEq, Repr

/-- `None` for a result without an error. -/
structure Reply where
  error : Option RequestError
  sent : List Sent
deriving DecidableEq, Repr

def Reply.ok : Reply := ⟨none, []⟩

def Reply.refused (error : RequestError) : Reply := ⟨some error, []⟩

def Reply.setSelection (error : SetSelectionError) : Reply := .refused (.setSelection error)

/-- The handle of a drag source that is shared between the drag and its offers. -/
abbrev DragId := Nat

/-- The state that the offer objects of one entered surface share. -/
abbrev OfferId := Nat

/-- `W` names the surfaces. -/
structure DndTarget (W : Type) where
  surface : W
  offer : Option OfferId

structure ActiveDnd (W : Type) where
  sourceToken : Option SourceToken
  origin : W
  source : DragId
  target : Option (DndTarget W)

structure SelectionProtocol (C W : Type) where
  nextSource : Nat
  sources : Map SourceToken (Source C)
  clipboard : Option SourceToken
  primary : Option SourceToken
  focusedClient : Option C
  activeDnd : Option (ActiveDnd W)

structure SelectionOffer where
  source : SourceToken
  target : SelectionTarget
  focusedOnly : Bool
deriving DecidableEq, Repr

namespace SelectionProtocol

variable {C W : Type}

def new : SelectionProtocol C W := ⟨1, Map.empty, none, none, none, none⟩

variable (p : SelectionProtocol C W)

def setFocus (focused : Option C) : SelectionProtocol C W :=
  { p with focusedClient := focused }

/-- The loop over the tokens, which ends within so many rounds if at all. -/
def allocateSource (p : SelectionProtocol C W) : Nat → Option (SourceToken × SelectionProtocol C W)
  | 0 => none
  | rounds + 1 =>
    let next := { p with nextSource := max ((p.nextSource + 1) % 2 ^ 64) 1 }
    if (p.sources.find p.nextSource).isSome then next.allocateSource rounds else some (p.nextSource, next)

def registerSource (token : SourceToken) (client : C) (kind : SourceKind) (version : Nat) :
    SelectionProtocol C W :=
  { p with sources := p.sources.insert token ⟨client, kind, ⟨true, version⟩, [], none, false, 0#3⟩ }

def offerMime (p : SelectionProtocol C W) (token : SourceToken) (mimeType : String) : Reply × SelectionProtocol C W :=
  match p.sources.find token with
  | none => (.refused (.offerMime .unknownSource), p)
  | some source =>
    if source.frozen then (.refused (.offerMime .frozen), p)
    else if source.mimeTypes.length < maxMimeTypes ∧ mimeType ∉ source.mimeTypes then
      (.ok, { p with sources := p.sources.insert token { source with mimeTypes := source.mimeTypes ++ [mimeType] } })
    else (.ok, p)

/-- The actions are missing where the mask has unknown bits. -/
def setCoreActions (token : SourceToken) (actions : Option DndAction) :
    Reply × SelectionProtocol C W :=
  match p.sources.find token with
  | none => (.refused (.setActions .invalidSource), p)
  | some source =>
    if source.kind ≠ .core ∨ source.frozen ∨ source.coreActionsSet then (.refused (.setActions .invalidSource), p)
    else
      match actions with
      | none => (.refused (.setActions .invalidMask), p)
      | some actions =>
        (.ok, { p with
          sources := p.sources.insert token { source with coreActions := actions, coreActionsSet := true } })

def selection : SelectionTarget → Option SourceToken
  | .clipboard => p.clipboard
  | .primary => p.primary

def setSlot (source : Option SourceToken) : SelectionTarget → SelectionProtocol C W
  | .clipboard => { p with clipboard := source }
  | .primary => { p with primary := source }

def cancel (token : SourceToken) : List Sent :=
  match p.sources.find token with
  | some source => if source.resource.alive then [.cancelled token] else []
  | none => []

def replaceSelection (target : SelectionTarget) (source : Option SourceToken) :
    Reply × SelectionProtocol C W :=
  if p.selection target = source then (.ok, p)
  else (⟨none, (p.selection target).elim [] p.cancel⟩, p.setSlot source target)

def useSource (token : SourceToken) (source : Source C) (use : SourceUse) :
    SelectionProtocol C W :=
  { p with sources := p.sources.insert token { source with use := some use } }

variable [DecidableEq C]

def setFocusedSelection (client : C) (source : Option SourceToken) (kind : SourceKind)
    (target : SelectionTarget) : Reply × SelectionProtocol C W :=
  if p.focusedClient ≠ some client then (.setSelection .notFocused, p)
  else
    match source with
    | none => p.replaceSelection target none
    | some token =>
      match p.sources.find token with
      | none => (.setSelection .unknownSource, p)
      | some record =>
        if record.client ≠ client ∨ record.kind ≠ kind then (.setSelection .wrongSource, p)
        else if record.use.isSome then (.setSelection .usedSource, p)
        else if kind = .core ∧ record.coreActionsSet then (.setSelection .dndActions, p)
        else (p.useSource token record (.selection target)).replaceSelection target (some token)

def setControlSelection (client : C) (source : Option SourceToken) (kind : SourceKind)
    (target : SelectionTarget) : Reply × SelectionProtocol C W :=
  match source with
  | none => p.replaceSelection target none
  | some token =>
    match p.sources.find token with
    | none => (.setSelection .unknownSource, p)
    | some record =>
      if record.client ≠ client ∨ record.kind ≠ kind then (.setSelection .wrongSource, p)
      else if record.use.isSome then (.setSelection .usedSource, p)
      else (p.useSource token record (.selection target)).replaceSelection target (some token)

def setCoreSelection (client : C) (source : Option SourceToken) :
    Reply × SelectionProtocol C W :=
  p.setFocusedSelection client source .core .clipboard

def setPrimarySelection (client : C) (source : Option SourceToken) :
    Reply × SelectionProtocol C W :=
  p.setFocusedSelection client source .primary .primary

def setWlrSelection (client : C) (source : Option SourceToken) (target : SelectionTarget) :
    Reply × SelectionProtocol C W :=
  p.setControlSelection client source .wlrDataControl target

def setExtSelection (client : C) (source : Option SourceToken) (target : SelectionTarget) :
    Reply × SelectionProtocol C W :=
  p.setControlSelection client source .extDataControl target

def receive (client : C) (offer : SelectionOffer) (mimeType : String) : Reply :=
  if p.selection offer.target ≠ some offer.source ∨ offer.focusedOnly ∧ p.focusedClient ≠ some client then .ok
  else
    match p.sources.find offer.source with
    | none => .ok
    | some source =>
      if mimeType ∈ source.mimeTypes ∧ source.resource.alive then ⟨none, [.send offer.source mimeType]⟩ else .ok

def beginCoreDnd (client : C) (token : SourceToken) (origin : W) (drag : DragId) :
    Reply × SelectionProtocol C W :=
  match p.sources.find token with
  | none => (.setSelection .unknownSource, p)
  | some record =>
    if record.client ≠ client ∨ record.kind ≠ .core then (.setSelection .wrongSource, p)
    else if record.use.isSome ∨ p.activeDnd.isSome then (.setSelection .usedSource, p)
    else if !record.resource.alive then (.setSelection .unknownSource, p)
    else (.ok, { p.useSource token record .dnd with activeDnd := some ⟨some token, origin, drag, none⟩ })

def dragActions (record : Source C) : DndAction :=
  if record.resource.version < actionNegotiationVersion then .copy else record.coreActions

def beginLocalDnd (origin : W) (drag : DragId) : Reply × SelectionProtocol C W :=
  if p.activeDnd.isSome then (.setSelection .usedSource, p)
  else (.ok, { p with activeDnd := some ⟨none, origin, drag, none⟩ })

def setTarget (target : Option (DndTarget W)) : SelectionProtocol C W :=
  { p with activeDnd := p.activeDnd.map fun active => { active with target := target } }

/-- The drag is taken by its drop or its cancellation. -/
def takeDnd : Option (ActiveDnd W) × SelectionProtocol C W :=
  (p.activeDnd, { p with activeDnd := none })

def sourceDestroyed (token : SourceToken) : Bool × SelectionProtocol C W :=
  if (p.sources.find token).isNone then (false, p)
  else
    (p.activeDnd.any fun dnd => dnd.sourceToken = some token, { p with
      sources := p.sources.erase token
      clipboard := if p.clipboard = some token then none else p.clipboard
      primary := if p.primary = some token then none else p.primary })

/-- The client of a source has gone, while the source itself is still to be destroyed. -/
def disconnect (token : SourceToken) : SelectionProtocol C W :=
  { p with
    sources := p.sources.modify token fun source =>
      { source with resource := { source.resource with alive := false } } }

end SelectionProtocol

end TensorDE.Protocol.Selection
