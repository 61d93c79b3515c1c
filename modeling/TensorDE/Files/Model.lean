import TensorDE.Lib.Maps
import TensorDE.Files.Entry
import TensorDE.Files.Events

set_option linter.dupNamespace false

namespace TensorDE.Files

open Maps Utf8

structure ItemRange where
  start : Nat
  len : Nat
deriving DecidableEq

structure ChangedRoles where
  metadata : Bool
  name : Bool
  path : Bool
deriving DecidableEq

namespace ChangedRoles

def all : ChangedRoles := ⟨true, true, true⟩

def metadataOnly : ChangedRoles := ⟨true, false, false⟩

end ChangedRoles

inductive DirectoryModelSignal where
  | itemsInserted (ranges : List ItemRange)
  | itemsRemoved (ranges : List ItemRange)
  | itemsChanged (ranges : List ItemRange) (roles : ChangedRoles)
  | itemsMoved (moves : List (Nat × Nat))
  | groupsChanged
  | sortChanged
  | modelReset
deriving DecidableEq

/-- An index over the entries of a list, built block by block as far as the lookups needed it. The path
index and the id index are the same thing over other keys. -/
structure IndexCache (K : Type) where
  generation : Nat
  indexedUntil : Nat
  index : Map K Nat

namespace IndexCache

variable {K : Type} [DecidableEq K]

def new : IndexCache K := ⟨0, 0, Map.empty⟩

variable (c : IndexCache K)

def prepare (generation : Nat) : IndexCache K :=
  if c.generation = generation then c else ⟨generation, 0, Map.empty⟩

def reset : IndexCache K := ⟨(c.generation + 1) % 2 ^ 64, 0, Map.empty⟩

def blockSize : Nat := 1000

/-- A key is missing where the entry has none. -/
def insertKey (keys : List (Option K)) (index : Map K Nat) (i : Nat) : Map K Nat :=
  match keys[i]? with
  | some (some key) => index.insert key i
  | _ => index

def extend (keys : List (Option K)) : IndexCache K :=
  { c with
    indexedUntil := min (c.indexedUntil + blockSize) keys.length
    index := (List.range' c.indexedUntil (min (c.indexedUntil + blockSize) keys.length - c.indexedUntil)).foldl
      (insertKey keys) c.index }

/-- Each round of the lookup loop indexes one more block; `rounds` is a bound for them. -/
def search (keys : List (Option K)) (key : K) : Nat → IndexCache K → Option Nat × IndexCache K
  | 0, c => (none, c)
  | rounds + 1, c =>
    match c.index.find key with
    | some i => (some i, c)
    | none => if keys.length ≤ c.indexedUntil then (none, c) else search keys key rounds (c.extend keys)

def lookup (generation : Nat) (keys : List (Option K)) (key : K) : Option Nat × IndexCache K :=
  search keys key (keys.length + 1) (c.prepare generation)

end IndexCache

def rangeAll (len : Nat) : List ItemRange := if len = 0 then [] else [⟨0, len⟩]

variable (ranges : List ItemRange)

/-- A position that follows the last range extends it. -/
def pushIndex (index : Nat) : List ItemRange :=
  match ranges.getLast? with
  | some last =>
    if last.start + last.len = index then ranges.dropLast ++ [⟨last.start, last.len + 1⟩]
    else ranges ++ [⟨index, 1⟩]
  | none => [⟨index, 1⟩]

def rangesFromIndexes (indexes : List Nat) : List ItemRange :=
  (Sorting.sortBy compare indexes).dedup.foldl pushIndex []

/-- The ranges of a merge are recorded from the end, so the last one may grow to the front. -/
def recordReverseInsertedRange (index : Nat) : List ItemRange :=
  match ranges.getLast? with
  | some last =>
    if last.start = index + 1 then ranges.dropLast ++ [⟨index, last.len + 1⟩]
    else ranges ++ [⟨index, 1⟩]
  | none => [⟨index, 1⟩]

/-- The loop of the merge. It walks both lists from their ends, so they are reversed here, `done` holds the
slots written so far, and the slot written next is the one at `existing.length + new.length`. -/
def mergeLoop (sort : SortDescriptor) : Nat → List ModelEntry → List ModelEntry → List ModelEntry →
    List ItemRange → List ModelEntry × List ItemRange
  | rounds + 1, existing, n :: new, done, ranges =>
    match existing with
    | e :: rest =>
      if sortCmp sort n e = .lt then mergeLoop sort rounds rest (n :: new) (e :: done) ranges
      else mergeLoop sort rounds (e :: rest) new (n :: done)
        (recordReverseInsertedRange ranges (rest.length + 1 + new.length))
    | [] => mergeLoop sort rounds [] new (n :: done) (recordReverseInsertedRange ranges new.length)
  | _, existing, _, done, ranges => (existing.reverse ++ done, ranges.reverse)

def mergeSortedModelEntriesInPlace (entries added : List ModelEntry) (sort : SortDescriptor) :
    List ModelEntry × List ItemRange :=
  mergeLoop sort (entries.length + added.length) entries.reverse added.reverse [] []

structure DirectoryModel where
  directory : Path
  isNetwork : Bool
  entries : List ModelEntry
  sort : SortDescriptor
  nextItemId : Nat
  dataGeneration : Nat
  indexGeneration : Nat
  pathIndex : IndexCache Str
  idIndex : IndexCache ItemId

namespace DirectoryModel

def forDirectory (places : Places) (directory : Path) : DirectoryModel :=
  ⟨directory, places.isNetworkPath directory, [], .forDirectory places directory, 0, 0, 0, .new, .new⟩

def new (places : Places) : DirectoryModel := forDirectory places .empty

variable (m : DirectoryModel)

def markMetadataChanged : DirectoryModel :=
  { m with dataGeneration := (m.dataGeneration + 1) % 2 ^ 64 }

def markStructureChanged : DirectoryModel :=
  { m with
    dataGeneration := (m.dataGeneration + 1) % 2 ^ 64
    indexGeneration := (m.indexGeneration + 1) % 2 ^ 64
    pathIndex := m.pathIndex.reset
    idIndex := m.idIndex.reset }

section Lookup

variable (m : DirectoryModel)

def nameKeys : List (Option Str) := m.entries.map fun e => some e.name

def idKeys : List (Option ItemId) :=
  m.entries.map fun e => if e.id.isAssigned then some e.id else none

def indexOfName (name : Str) : Option Nat × DirectoryModel :=
  ((m.pathIndex.lookup m.indexGeneration m.nameKeys name).1,
    { m with pathIndex := (m.pathIndex.lookup m.indexGeneration m.nameKeys name).2 })

def indexOfItemId (id : ItemId) : Option Nat × DirectoryModel :=
  ((m.idIndex.lookup m.indexGeneration m.idKeys id).1,
    { m with idIndex := (m.idIndex.lookup m.indexGeneration m.idKeys id).2 })

def indexOfId (id : ItemId) : Option Nat × DirectoryModel :=
  if id.isAssigned then m.indexOfItemId id else (none, m)

def indexOfTarget (path : Path) : Option Nat :=
  if m.isNetwork then m.entries.findIdx? fun e => e.entry.targetPath = some path else none

def indexOfPath (places : Places) (m : DirectoryModel) (path : Path) : Option Nat × DirectoryModel :=
  match m.indexOfTarget path with
  | some index => (some index, m)
  | none =>
    match places.entryName m.directory path with
    | some name => m.indexOfName name
    | none => (none, m)

def pathForEntry (e : ModelEntry) : Path :=
  match e.entry.targetPath with
  | some path => path
  | none => m.directory.join (encode e.name)

end Lookup

section Identity

variable (m : DirectoryModel)

def allocateItemId : ItemId × DirectoryModel :=
  (m.nextItemId + 1, { m with nextItemId := m.nextItemId + 1 })

def assignNewIdentity (e : ModelEntry) : ModelEntry × DirectoryModel :=
  if e.id.isAssigned then (e, { m with nextItemId := max m.nextItemId e.id })
  else ({ e with id := m.allocateItemId.1 }, m.allocateItemId.2)

/-- The entry takes the place of `old`. -/
def assignIdentityFrom (e old : ModelEntry) : ModelEntry × DirectoryModel :=
  if e.id.isAssigned then
    (old.preserveRefreshedEntryRoles e, { m with nextItemId := max m.nextItemId e.id })
  else (old.preserveRefreshedEntryRoles { e with id := old.id }, m)

def assignNewIdentities (m : DirectoryModel) : List ModelEntry → List ModelEntry × DirectoryModel
  | [] => ([], m)
  | e :: entries =>
    ((m.assignNewIdentity e).1 :: ((m.assignNewIdentity e).2.assignNewIdentities entries).1,
      ((m.assignNewIdentity e).2.assignNewIdentities entries).2)

def nameCmp (left right : ModelEntry) : Ordering := entryNameCmp left.name right.name

/-- The old entry of that name, in old entries sorted by name, and those behind it. -/
def seekName (name : Str) : List ModelEntry → Option ModelEntry × List ModelEntry
  | [] => (none, [])
  | old :: rest =>
    match entryNameCmp old.name name with
    | .lt => seekName name rest
    | .eq => (some old, rest)
    | .gt => (none, old :: rest)

/-- The state of the loop over the new entries in name order: the old entries that are left, the counter,
and the new entries, of which those visited have their identity. -/
structure Assignment where
  remaining : List ModelEntry
  nextItemId : Nat
  entries : List ModelEntry

def Assignment.visit (a : Assignment) (new : ModelEntry × Nat) : Assignment :=
  if new.1.id.isAssigned then { a with nextItemId := max a.nextItemId new.1.id }
  else
    match seekName new.1.name a.remaining with
    | (some old, rest) =>
      { a with
        remaining := rest
        entries := a.entries.set new.2 (old.preserveRefreshedEntryRoles { new.1 with id := old.id }) }
    | (none, rest) =>
      ⟨rest, a.nextItemId + 1, a.entries.set new.2 { new.1 with id := a.nextItemId + 1 }⟩

def assignListingIdentityByName (entries : List ModelEntry) : Assignment :=
  (Sorting.sortBy (fun left right => nameCmp left.1 right.1) entries.zipIdx).foldl Assignment.visit
    ⟨Sorting.sortBy nameCmp m.entries, m.nextItemId, entries⟩

def assignListingIdentity (directory : Path) (entries : List ModelEntry) :
    List ModelEntry × DirectoryModel :=
  if m.directory ≠ directory then m.assignNewIdentities entries
  else
    ((m.assignListingIdentityByName entries).entries,
      { m with nextItemId := (m.assignListingIdentityByName entries).nextItemId })

end Identity

section Listing

variable (places : Places)

def sortFor (m : DirectoryModel) (directory : Path) : SortDescriptor :=
  if m.directory = directory then m.sort else .forDirectory places directory

def replaceData (m : DirectoryModel) (directory : Path) (entries : List ModelEntry) :
    DirectoryModel :=
  { m with
    directory
    isNetwork := places.isNetworkPath directory
    entries
    sort := m.sortFor places directory }.markStructureChanged

variable (m : DirectoryModel)

def sameListing (directory : Path) (entries : List ModelEntry) : Bool :=
  decide (m.directory = directory) && decide (m.entries.length = entries.length) &&
    (m.entries.zip entries).all fun pair => pair.1.name = pair.2.name ∧ pair.1.isDir = pair.2.isDir

def keepIdentity (old new : ModelEntry) : ModelEntry :=
  old.preserveRefreshedEntryRoles { new with
    entry := { new.entry with name := old.name, nameWidthUnits := old.entry.nameWidthUnits }
    id := old.id }

def replaceSameListingMetadata (entries : List ModelEntry) : DirectoryModel :=
  { m with entries := List.zipWith keepIdentity m.entries entries }.markMetadataChanged

def clearForDirectory (m : DirectoryModel) (directory : Path) :
    List DirectoryModelSignal × DirectoryModel :=
  if m.directory = directory ∧ m.entries = [] then ([], m)
  else ([.modelReset], m.replaceData places directory [])

def installListing (m : DirectoryModel) (directory : Path) (entries : List ModelEntry) :
    List DirectoryModelSignal × DirectoryModel :=
  if m.sameListing directory entries then
    ([.itemsChanged (rangeAll m.entries.length) .metadataOnly], m.replaceSameListingMetadata entries)
  else ([.modelReset], m.replaceData places directory entries)

def replaceListing (m : DirectoryModel) (directory : Path) (entries : List EntryData) :
    List DirectoryModelSignal × DirectoryModel :=
  (m.assignListingIdentity directory (entries.map ModelEntry.fromEntry)).2.installListing places directory
    (sortModelEntries (m.assignListingIdentity directory (entries.map ModelEntry.fromEntry)).1
      (m.sortFor places directory))

end Listing

section Update

variable (m : DirectoryModel)

/-- Sorts after some entries were replaced in place, and reports the replaced ones if they stayed. -/
def settleChanged (changed : List Nat) (changedStructure : Bool) :
    List DirectoryModelSignal × DirectoryModel :=
  if changedStructure ∨ m.entries.map (·.id) ≠ (sortModelEntries m.entries m.sort).map (·.id) then
    ([.modelReset], { m with entries := sortModelEntries m.entries m.sort }.markStructureChanged)
  else
    ([.itemsChanged (rangesFromIndexes changed) .all],
      { m with entries := sortModelEntries m.entries m.sort }.markMetadataChanged)

/-- The state of the loops over added and refreshed items. -/
structure Changes (A : Type) where
  model : DirectoryModel
  changed : List Nat
  changedStructure : Bool
  added : List A
  removed : List Path

def Changes.start {A : Type} : Changes A := ⟨m, [], false, [], []⟩

/-- The entry at an index is replaced in place; an index outside of the list panics. -/
def Changes.replaceAt {A : Type} (c : Changes A) (index : Nat) (entry : EntryData)
    (structural : ModelEntry → ModelEntry → Bool) : Option (Changes A) :=
  c.model.entries[index]?.map fun old =>
    { c with
      model := { (c.model.assignIdentityFrom (.fromEntry entry) old).2 with
        entries := c.model.entries.set index (c.model.assignIdentityFrom (.fromEntry entry) old).1 }
      changed := c.changed ++ [index]
      changedStructure :=
        c.changedStructure || structural old (c.model.assignIdentityFrom (.fromEntry entry) old).1 }

variable (c : Changes ModelEntry)

def addItem (entry : EntryData) : Option (Changes ModelEntry) :=
  match c.model.indexOfName entry.name with
  | (some index, m) => { c with model := m }.replaceAt index entry fun old new => old.isDir ≠ new.isDir
  | (none, m) =>
    some { c with
      model := (m.assignNewIdentity (.fromEntry entry)).2
      added := c.added ++ [(m.assignNewIdentity (.fromEntry entry)).1] }

def insertSortedModelEntries (added : List ModelEntry) : List ItemRange × DirectoryModel :=
  if added = [] then ([], m)
  else if m.entries = [] then ([⟨0, added.length⟩], { m with entries := added })
  else
    ((mergeSortedModelEntriesInPlace m.entries added m.sort).2,
      { m with entries := (mergeSortedModelEntriesInPlace m.entries added m.sort).1 })

def finishAdded : List DirectoryModelSignal × DirectoryModel :=
  if c.added ≠ [] then
    if c.changed ≠ [] then
      ([.modelReset], { c.model with
        entries := sortModelEntries (c.model.entries ++ c.added) c.model.sort }.markStructureChanged)
    else
      ([.itemsInserted (c.model.insertSortedModelEntries (sortModelEntries c.added c.model.sort)).1],
        (c.model.insertSortedModelEntries (sortModelEntries c.added c.model.sort)).2.markStructureChanged)
  else if c.changed ≠ [] then c.model.settleChanged c.changed c.changedStructure
  else ([], c.model)

def applyItemsAdded (entries : List EntryData) :
    Option (List DirectoryModelSignal × DirectoryModel) :=
  if entries = [] then some ([], m)
  else (entries.foldlM addItem (.start m)).map finishAdded

def indexesOfPaths (places : Places) (m : DirectoryModel) : List Path → List Nat × DirectoryModel
  | [] => ([], m)
  | path :: paths =>
    ((m.indexOfPath places path).1.toList ++ ((m.indexOfPath places path).2.indexesOfPaths places paths).1,
      ((m.indexOfPath places path).2.indexesOfPaths places paths).2)

def removeIndexes (entries : List ModelEntry) (indexes : List Nat) : List ModelEntry :=
  (entries.zipIdx.filter fun pair => pair.2 ∉ indexes).map Prod.fst

variable (places : Places)

def applyItemsDeleted (m : DirectoryModel) (paths : List Path) :
    List DirectoryModelSignal × DirectoryModel :=
  if paths = [] then ([], m)
  else if (m.indexesOfPaths places paths).1 = [] then ([], (m.indexesOfPaths places paths).2)
  else
    ([.itemsRemoved (rangesFromIndexes (m.indexesOfPaths places paths).1)],
      { (m.indexesOfPaths places paths).2 with
        entries := removeIndexes m.entries (m.indexesOfPaths places paths).1 }.markStructureChanged)

def refreshItem (c : Changes EntryData) (pair : RefreshPair Path EntryData) :
    Option (Changes EntryData) :=
  match pair.entry with
  | some entry =>
    match c.model.indexOfPath places pair.oldPath with
    | (some index, m) =>
      { c with model := m }.replaceAt index entry fun old new => old.name ≠ new.name ∨ old.isDir ≠ new.isDir
    | (none, m) => some { c with model := m, added := c.added ++ [entry] }
  | none => some { c with removed := c.removed ++ [pair.oldPath] }

/-- The end of a refresh, after the removed and the added items. -/
def Changes.settle (c : Changes EntryData) (signals : List DirectoryModelSignal) (m : DirectoryModel) :
    List DirectoryModelSignal × DirectoryModel :=
  if c.changed ≠ [] then
    (signals ++ (m.settleChanged c.changed c.changedStructure).1, (m.settleChanged c.changed c.changedStructure).2)
  else (signals, m)

def finishRefreshed (c : Changes EntryData) :
    Option (List DirectoryModelSignal × DirectoryModel) :=
  ((c.model.applyItemsDeleted places c.removed).2.applyItemsAdded c.added).map fun added =>
    c.settle ((c.model.applyItemsDeleted places c.removed).1 ++ added.1) added.2

def applyItemsRefreshed (m : DirectoryModel) (pairs : List (RefreshPair Path EntryData)) :
    Option (List DirectoryModelSignal × DirectoryModel) :=
  if pairs = [] then some ([], m)
  else (pairs.foldlM (refreshItem places) (.start m)).bind (finishRefreshed places)

def setSort (sort : SortDescriptor) : List DirectoryModelSignal × DirectoryModel :=
  if m.sort = sort then ([], m)
  else ([.sortChanged], { m with sort, entries := sortModelEntries m.entries sort }.markStructureChanged)

end Update

section Roles

def metadataSortRoleNeedsResort (sort : SortDescriptor) : Bool := sort.role = .modified ∨ sort.role = .size

variable (e : ModelEntry)

def storeRole (role : EntryMetadataRole) : ModelEntry :=
  { e with metadataRole := e.normalizedRole role, metadataRefreshPending := false }

/-- The entry with a role other than the one in effect. A thumbnail is kept for the same metadata only. -/
def withRole (role : EntryMetadataRole) : ModelEntry :=
  { storeRole e role with
    thumbnailPath :=
      if e.effectiveSizeBytes ≠ (storeRole e role).effectiveSizeBytes ∨
        e.effectiveModifiedSecs ≠ (storeRole e role).effectiveModifiedSecs then none else e.thumbnailPath
    thumbnailFailed :=
      if e.effectiveSizeBytes ≠ (storeRole e role).effectiveSizeBytes ∨
        e.effectiveModifiedSecs ≠ (storeRole e role).effectiveModifiedSecs ∨
        e.effectiveMimeType ≠ (storeRole e role).effectiveMimeType then false else e.thumbnailFailed }

variable (m : DirectoryModel)

def reportRole (id : ItemId) (index : Nat) (entries : List ModelEntry) :
    List DirectoryModelSignal × DirectoryModel :=
  if m.entries.map (·.id) ≠ entries.map (·.id) then ([.modelReset], { m with entries }.markStructureChanged)
  else
    ([.itemsChanged [⟨(({ m with entries } : DirectoryModel).indexOfId id).1.getD index, 1⟩] .metadataOnly],
      (({ m with entries } : DirectoryModel).indexOfId id).2.markMetadataChanged)

def changeRole (id : ItemId) (index : Nat) (e : ModelEntry) (role : EntryMetadataRole) :
    List DirectoryModelSignal × DirectoryModel :=
  m.reportRole id index
    (if metadataSortRoleNeedsResort m.sort then sortModelEntries (m.entries.set index (withRole e role)) m.sort
      else m.entries.set index (withRole e role))

def setMetadataRole (id : ItemId) (path : Path) (role : EntryMetadataRole) :
    Option (List DirectoryModelSignal × DirectoryModel) :=
  match m.indexOfId id with
  | (none, m) => some ([], m)
  | (some index, m) =>
    m.entries[index]?.map fun e =>
      if m.pathForEntry e ≠ path then ([], m)
      else if e.effectiveMetadataRole = role then
        if e.metadataRefreshPending ∨ e.metadataRole ≠ e.normalizedRole role then
          ([], { m with entries := m.entries.set index (storeRole e role) }.markMetadataChanged)
        else ([], m)
      else m.changeRole id index e role

/-- The two updates of a thumbnail: `same` says that there is nothing to do for the entry. -/
def setThumbnail (id : ItemId) (same : ModelEntry → Bool) (update : ModelEntry → ModelEntry) :
    Option (List DirectoryModelSignal × DirectoryModel) :=
  match m.indexOfId id with
  | (none, m) => some ([], m)
  | (some index, m) =>
    m.entries[index]?.map fun e =>
      if same e then ([], m)
      else
        ([.itemsChanged [⟨index, 1⟩] .metadataOnly],
          { m with entries := m.entries.set index (update e) }.markMetadataChanged)

def setThumbnailPath (id : ItemId) (thumbnailPath : Option Path) :
    Option (List DirectoryModelSignal × DirectoryModel) :=
  m.setThumbnail id (fun e => decide (e.thumbnailPath = thumbnailPath) && !e.thumbnailFailed)
    fun e => { e with thumbnailPath, thumbnailFailed := false }

def setThumbnailFailed (id : ItemId) (failed : Bool) :
    Option (List DirectoryModelSignal × DirectoryModel) :=
  m.setThumbnail id (fun e => decide (e.thumbnailFailed = failed) && (failed || e.thumbnailPath.isNone))
    fun e => { e with thumbnailFailed := failed, thumbnailPath := if failed then none else e.thumbnailPath }

end Roles

end DirectoryModel

end TensorDE.Files
