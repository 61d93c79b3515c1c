import TensorDE.Files.Model

namespace TensorDE.Files

abbrev ListerEvent := DirectoryListerEvent Path EntryData

structure ActiveListing where
  requestSerial : RequestSerial
  receivedItems : Bool
deriving DecidableEq

/-- What the watcher saw, after deltas of one kind in a row were put together. -/
inductive ClassifiedWatcherDelta where
  | itemsAdded (paths : List Path)
  | itemsDeleted (paths : List Path)
  | itemsRefreshed (paths : List Path)
  | renamed (old new : Path)
  | fullReload
  | currentDirectoryRemoved

structure DirectoryLister where
  paneId : PaneId
  generation : Generation
  path : Path
  requestSerial : Nat
  activeListing : Option ActiveListing
deriving DecidableEq

namespace DirectoryLister

def new (paneId : PaneId) (path : Path) (generation : Generation) : DirectoryLister :=
  ⟨paneId, generation, path, 0, none⟩

variable (l : DirectoryLister)

def setTarget (paneId : PaneId) (path : Path) (generation : Generation) : DirectoryLister :=
  { l with paneId, generation, path, activeListing := none }

def nextSerial : DirectoryLister := { l with requestSerial := l.requestSerial + 1 }

def target : EventTarget Path := ⟨l.paneId, l.generation, l.requestSerial, l.path⟩

def loadDirectory (mode : LoadMode) : ListerEvent × DirectoryLister :=
  (.loadingStarted l.nextSerial.target mode,
    { l.nextSerial with activeListing := some ⟨l.nextSerial.requestSerial, false⟩ })

variable (readEntrySync : Path → Option EntryData)

/-- The event for a delta, under the serial drawn last. `readEntrySync` is what the file system says of a path. -/
def eventForClassifiedDelta (l : DirectoryLister) :
    ClassifiedWatcherDelta → ListerEvent
  | .itemsAdded paths => .itemsAdded l.target (paths.filterMap readEntrySync)
  | .itemsDeleted paths => .itemsDeleted l.target paths
  | .itemsRefreshed paths => .itemsRefreshed l.target (paths.map fun path => ⟨path, readEntrySync path⟩)
  | .renamed old new => .itemsRefreshed l.target [⟨old, readEntrySync new⟩]
  | .fullReload => .loadingStarted l.target .reload
  | .currentDirectoryRemoved => .currentDirectoryRemoved l.target

def drainErrors (l : DirectoryLister) : List String → List ListerEvent × DirectoryLister
  | [] => ([], l)
  | message :: errors =>
    (.error l.nextSerial.target message :: (l.nextSerial.drainErrors errors).1, (l.nextSerial.drainErrors errors).2)

def drainDeltas (readEntrySync : Path → Option EntryData) (l : DirectoryLister) :
    List ClassifiedWatcherDelta → List ListerEvent × DirectoryLister
  | [] => ([], l)
  | delta :: deltas =>
    (l.nextSerial.eventForClassifiedDelta readEntrySync delta :: (l.nextSerial.drainDeltas readEntrySync deltas).1,
      (l.nextSerial.drainDeltas readEntrySync deltas).2)

/-- Every event drained draws a serial before any of them is applied. -/
def drainWatcherEvents (l : DirectoryLister) (errors : List String)
    (deltas : List ClassifiedWatcherDelta) : List ListerEvent × DirectoryLister :=
  ((l.drainErrors errors).1 ++ ((l.drainErrors errors).2.drainDeltas readEntrySync deltas).1,
    ((l.drainErrors errors).2.drainDeltas readEntrySync deltas).2)

/-- A listing that waits for its first items, and one that has had none: the same test under two names. -/
def activeListingIsWaitingForFirstItems (requestSerial : RequestSerial) : Bool :=
  l.activeListing = some ⟨requestSerial, false⟩

def activeListingIsEmpty (requestSerial : RequestSerial) : Bool :=
  l.activeListingIsWaitingForFirstItems requestSerial

def clearActiveListingForSerial (requestSerial : RequestSerial) : DirectoryLister :=
  if (l.activeListing.map (·.requestSerial)) = some requestSerial then { l with activeListing := none } else l

/-- A listing whose serial is no longer the last one drawn is given up. -/
def dropOvertaken : DirectoryLister :=
  if l.activeListing.any fun listing => listing.requestSerial < l.requestSerial then { l with activeListing := none }
  else l

def receiveItems : DirectoryLister :=
  { l with activeListing := l.activeListing.map fun listing => { listing with receivedItems := true } }

abbrev Applied := List DirectoryModelSignal × DirectoryLister × DirectoryModel

variable (places : Places)

def dispatch (l : DirectoryLister) (m : DirectoryModel) : ListerEvent → Option Applied
  | .loadingStarted target _ => some ([], { l with activeListing := some ⟨target.requestSerial, false⟩ }, m)
  | .currentDirectoryRemoved target => some ([], l.clearActiveListingForSerial target.requestSerial, m)
  | .error target _ => some ([], l.clearActiveListingForSerial target.requestSerial, m)
  | .networkAuthRequired target _ _ _ _ => some ([], l.clearActiveListingForSerial target.requestSerial, m)
  | .itemsAdded target entries =>
    if l.activeListingIsWaitingForFirstItems target.requestSerial then
      some ((m.replaceListing places target.path entries).1, l.receiveItems,
        (m.replaceListing places target.path entries).2)
    else if m.directory ≠ target.path then
      some ((m.replaceListing places target.path entries).1, l, (m.replaceListing places target.path entries).2)
    else (m.applyItemsAdded entries).map fun r => (r.1, l, r.2)
  | .itemsDeleted _ paths => some ((m.applyItemsDeleted places paths).1, l, (m.applyItemsDeleted places paths).2)
  | .itemsRefreshed _ pairs => (m.applyItemsRefreshed places pairs).map fun r => (r.1, l, r.2)
  | .listingRefreshed target entries =>
    some ((m.replaceListing places target.path entries).1, l.clearActiveListingForSerial target.requestSerial,
      (m.replaceListing places target.path entries).2)
  | .listingCompleted target =>
    if l.activeListingIsEmpty target.requestSerial ∨ m.directory ≠ target.path then
      some ((m.clearForDirectory places target.path).1, l.clearActiveListingForSerial target.requestSerial,
        (m.clearForDirectory places target.path).2)
    else some ([], l.clearActiveListingForSerial target.requestSerial, m)

def applyEventToModel (l : DirectoryLister) (event : ListerEvent) (m : DirectoryModel) :
    Option Applied :=
  if event.requestSerial < l.requestSerial then some ([], l.dropOvertaken, m)
  else l.dropOvertaken.dispatch places m event

end DirectoryLister

structure PaneState where
  id : PaneId
  generation : Generation
  currentDir : Path
  model : DirectoryModel
  lister : DirectoryLister

namespace PaneState

def new (places : Places) (id : PaneId) (currentDir : Path) : PaneState :=
  ⟨id, 0, currentDir, .forDirectory places currentDir, .new id currentDir 0⟩

def navigateTo (p : PaneState) (path : Path) (generation : Generation) : PaneState :=
  { p with currentDir := path, generation, lister := p.lister.setTarget p.id path generation }

def load (p : PaneState) (path : Path) (generation : Generation) : ListerEvent × PaneState :=
  (((p.navigateTo path generation).lister.loadDirectory .load).1,
    { p.navigateTo path generation with lister := ((p.navigateTo path generation).lister.loadDirectory .load).2 })

def reload (p : PaneState) : ListerEvent × PaneState :=
  ((p.lister.loadDirectory .reload).1, { p with lister := (p.lister.loadDirectory .reload).2 })

/-- An event for another pane, generation or directory is not for this one. -/
def applyListerEvent (places : Places) (p : PaneState) (event : ListerEvent) : Option PaneState :=
  if event.matchesTarget p.id p.generation p.currentDir then
    (p.lister.applyEventToModel places event p.model).map fun applied =>
      { p with lister := applied.2.1, model := applied.2.2 }
  else some p

end PaneState

end TensorDE.Files
