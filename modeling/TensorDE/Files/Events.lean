import Mathlib.Data.List.Basic

namespace TensorDE.Files

abbrev PaneId := Nat

abbrev Generation := Nat

abbrev RequestSerial := Nat

inductive LoadMode where
  | load
  | reload
deriving DecidableEq

/-- Whom an event is for. Every event of a lister carries these four fields. -/
structure EventTarget (P : Type) where
  paneId : PaneId
  generation : Generation
  requestSerial : RequestSerial
  path : P
deriving DecidableEq

structure RefreshPair (P E : Type) where
  oldPath : P
  entry : Option E
deriving DecidableEq

inductive DirectoryListerEvent (P E : Type) where
  | loadingStarted (target : EventTarget P) (mode : LoadMode)
  | itemsAdded (target : EventTarget P) (entries : List E)
  | itemsDeleted (target : EventTarget P) (paths : List P)
  | itemsRefreshed (target : EventTarget P) (pairs : List (RefreshPair P E))
  | listingRefreshed (target : EventTarget P) (entries : List E)
  | listingCompleted (target : EventTarget P)
  | currentDirectoryRemoved (target : EventTarget P)
  | error (target : EventTarget P) (message : String)
  | networkAuthRequired (target : EventTarget P) (uri message : String)
      (defaultUsername defaultDomain : Option String)
deriving DecidableEq

namespace DirectoryListerEvent

variable {P E : Type}

def target : DirectoryListerEvent P E → EventTarget P
  | loadingStarted target _ => target
  | itemsAdded target _ => target
  | itemsDeleted target _ => target
  | itemsRefreshed target _ => target
  | listingRefreshed target _ => target
  | listingCompleted target => target
  | currentDirectoryRemoved target => target
  | error target _ => target
  | networkAuthRequired target _ _ _ _ => target

def paneId (event : DirectoryListerEvent P E) : PaneId := event.target.paneId

def generation (event : DirectoryListerEvent P E) : Generation := event.target.generation

def requestSerial (event : DirectoryListerEvent P E) : RequestSerial := event.target.requestSerial

def path (event : DirectoryListerEvent P E) : P := event.target.path

def matchesTarget [DecidableEq P] (event : DirectoryListerEvent P E) (paneId : PaneId)
    (generation : Generation) (path : P) : Bool :=
  event.paneId = paneId ∧ event.generation = generation ∧ event.path = path

def entries : DirectoryListerEvent P E → List E
  | itemsAdded _ entries => entries
  | listingRefreshed _ entries => entries
  | _ => []

end DirectoryListerEvent

structure ListingRequest (P : Type) where
  paneId : PaneId
  generation : Generation
  requestSerial : RequestSerial
  path : P
  mode : LoadMode
deriving DecidableEq

structure ListingRequestKey where
  generation : Generation
  requestSerial : RequestSerial
deriving DecidableEq

namespace ListingRequest

variable {P E : Type}

def fromEvent : DirectoryListerEvent P E → Option (ListingRequest P)
  | .loadingStarted target mode =>
    some ⟨target.paneId, target.generation, target.requestSerial, target.path, mode⟩
  | _ => none

variable (request : ListingRequest P)

def key : ListingRequestKey := ⟨request.generation, request.requestSerial⟩

def target : EventTarget P :=
  ⟨request.paneId, request.generation, request.requestSerial, request.path⟩

end ListingRequest

end TensorDE.Files
