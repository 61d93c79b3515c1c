import TensorDE.Lib.Recency
import TensorDE.Files.Merge

set_option linter.dupNamespace false

namespace TensorDE.Files

open Utf8 Maps

structure DirectoryCacheFingerprint where
  modifiedNanos : Option Nat
  len : Nat
  isDir : Bool
  dev : Nat
  ino : Nat
deriving DecidableEq

/-- What the file system says of each path at a moment. -/
abbrev Fingerprints := Path → Option DirectoryCacheFingerprint

structure DirectoryCacheSnapshot where
  path : Path
  entries : List EntryData
  loadedAt : UInt64
  fingerprint : Option DirectoryCacheFingerprint

namespace DirectoryCacheSnapshot

def entryCount (s : DirectoryCacheSnapshot) : Nat := s.entries.length

def matchesCurrentDirectory (fingerprints : Fingerprints) (s : DirectoryCacheSnapshot) : Bool :=
  match s.fingerprint with
  | none => true
  | some fingerprint => decide (fingerprints s.path = some fingerprint)

end DirectoryCacheSnapshot

structure DirectoryCacheStats where
  hits : Nat
  misses : Nat
  staleInvalidations : Nat
  evictedDirectories : Nat
  skippedLargeDirectories : Nat

structure DirectoryCacheDirectorySummary where
  path : Path
  entryCount : Nat
  observedAt : UInt64

structure DirectoryCacheLimits where
  maxDirs : Nat
  maxEntries : Nat
  maxEntriesPerDir : Nat

structure DirectoryCache where
  limits : DirectoryCacheLimits
  clock : UInt64
  stats : DirectoryCacheStats
  cachedEntries : Nat
  entriesByPath : Map Path DirectoryCacheSnapshot
  lru : List Path
  skippedLargeByPath : Map Path DirectoryCacheDirectorySummary
  skippedLargeLru : List Path

/-- A parent component takes the name before it away, and stays where there is none. -/
def normalizeComponent (normalized : List OsStr) (component : OsStr) : List OsStr :=
  if component = Path.dotDot then
    if normalized = [] then [component] else normalized.dropLast
  else normalized ++ [component]

/-- Paths by their components have no single dots, so the path of a single dot is the empty one. -/
def normalizeCachePath (path : Path) : Path := ⟨path.rooted, path.parts.foldl normalizeComponent []⟩

namespace DirectoryCache

def withLimits (limits : DirectoryCacheLimits) : DirectoryCache where
  limits := ⟨max limits.maxDirs 1, max limits.maxEntries 1, max limits.maxEntriesPerDir 1⟩
  clock := 0
  stats := ⟨0, 0, 0, 0, 0⟩
  cachedEntries := 0
  entriesByPath := .empty
  lru := []
  skippedLargeByPath := .empty
  skippedLargeLru := []

variable (c : DirectoryCache)

def len : Nat := c.entriesByPath.keys.length

def canStoreEntryCount (entryCount : Nat) : Bool :=
  decide (entryCount ≤ c.limits.maxEntriesPerDir) && decide (entryCount ≤ c.limits.maxEntries)

def touch (c : DirectoryCache) (key : Path) : DirectoryCache := { c with lru := Recency.touch key c.lru }

def removeNormalized (key : Path) : Bool × DirectoryCache :=
  match c.entriesByPath.find key with
  | none => (false, { c with lru := Recency.forget key c.lru })
  | some removed =>
    (true, { c with
      lru := Recency.forget key c.lru
      entriesByPath := c.entriesByPath.erase key
      cachedEntries := c.cachedEntries - removed.entryCount })

def removeSkippedLargeNormalized (key : Path) : Bool × DirectoryCache :=
  ((c.skippedLargeByPath.find key).isSome, { c with
    skippedLargeLru := Recency.forget key c.skippedLargeLru
    skippedLargeByPath := c.skippedLargeByPath.erase key })

/-- The loop of `record_skipped_large_normalized`, over the queue that is left. -/
def trimSkipped (c : DirectoryCache) : List Path → DirectoryCache
  | [] => { c with skippedLargeLru := [] }
  | path :: rest =>
    if c.limits.maxDirs < (path :: rest).length then
      trimSkipped { c with skippedLargeByPath := c.skippedLargeByPath.erase path } rest
    else { c with skippedLargeLru := path :: rest }

def recordSkippedLargeNormalized (key : Path) (entryCount : Nat) : DirectoryCache :=
  trimSkipped { c with
    clock := c.clock + 1
    skippedLargeByPath := c.skippedLargeByPath.insert key ⟨key, entryCount, c.clock + 1⟩ }
    (Recency.touch key c.skippedLargeLru)

def overLimits : Bool :=
  decide (c.limits.maxDirs < c.len) || decide (c.limits.maxEntries < c.cachedEntries)

def evict (path : Path) : DirectoryCache :=
  match c.entriesByPath.find path with
  | none => c
  | some removed =>
    { c with
      entriesByPath := c.entriesByPath.erase path
      cachedEntries := c.cachedEntries - removed.entryCount
      stats := { c.stats with evictedDirectories := c.stats.evictedDirectories + 1 } }

/-- The loop of `evict_oldest`, over the queue that is left. -/
def evictFrom (c : DirectoryCache) : List Path → DirectoryCache
  | [] => { c with lru := [] }
  | path :: rest => if c.overLimits then evictFrom (c.evict path) rest else { c with lru := path :: rest }

def evictOldest : DirectoryCache := c.evictFrom c.lru

def get (path : Path) : Option DirectoryCacheSnapshot × DirectoryCache :=
  match c.entriesByPath.find (normalizeCachePath path) with
  | some snapshot =>
    (some snapshot, { c with stats := { c.stats with hits := c.stats.hits + 1 } }.touch (normalizeCachePath path))
  | none => (none, { c with stats := { c.stats with misses := c.stats.misses + 1 } })

variable (fingerprints : Fingerprints)

def getFresh (c : DirectoryCache) (path : Path) :
    Option DirectoryCacheSnapshot × DirectoryCache :=
  match c.get (normalizeCachePath path) with
  | (none, c) => (none, c)
  | (some snapshot, c) =>
    if snapshot.matchesCurrentDirectory fingerprints then (some snapshot, c)
    else (none, { (c.removeNormalized (normalizeCachePath path)).2 with
      stats := { c.stats with staleInvalidations := c.stats.staleInvalidations + 1 } })

/-- A directory that is too large leaves the cache for the record of those. -/
def skipLarge (key : Path) (entryCount : Nat) : DirectoryCache :=
  let c := (c.removeNormalized key).2.recordSkippedLargeNormalized key entryCount
  { c with stats := { c.stats with skippedLargeDirectories := c.stats.skippedLargeDirectories + 1 } }

def insertFresh (c : DirectoryCache) (path : Path) (entries : List EntryData) :
    Option DirectoryCacheSnapshot × DirectoryCache :=
  let key := normalizeCachePath path
  if c.canStoreEntryCount entries.length then
    let c := { c with clock := c.clock + 1 }
    let snapshot : DirectoryCacheSnapshot := ⟨key, entries, c.clock, fingerprints key⟩
    let c := (c.removeNormalized key).2
    let c := (c.removeSkippedLargeNormalized key).2
    let c := { c with
      cachedEntries := c.cachedEntries + snapshot.entryCount
      entriesByPath := c.entriesByPath.insert key snapshot }
    (some snapshot, (c.touch key).evictOldest)
  else (none, c.skipLarge key entries.length)

def markStale (path : Path) : Bool × DirectoryCache :=
  if (c.removeNormalized (normalizeCachePath path)).1 then
    (true, { (c.removeNormalized (normalizeCachePath path)).2 with
      stats := { c.stats with staleInvalidations := c.stats.staleInvalidations + 1 } })
  else (false, (c.removeNormalized (normalizeCachePath path)).2)

def recordUncachedDirectory (path : Path) (entryCount : Nat) : Bool × DirectoryCache :=
  if c.canStoreEntryCount entryCount then (false, c)
  else (true, c.skipLarge (normalizeCachePath path) entryCount)

def remove (path : Path) : Bool × DirectoryCache :=
  let key := normalizeCachePath path
  let (removed, c) := c.removeNormalized key
  let (skipped, c) := c.removeSkippedLargeNormalized key
  (removed || skipped, c)

def replaceFreshEntries (c : DirectoryCache) (key : Path) (entries : List EntryData)
    (oldEntryCount : Nat) : Bool × DirectoryCache :=
  if c.canStoreEntryCount entries.length then
    let c := { c with clock := c.clock + 1 }
    let c := { c with
      cachedEntries := c.cachedEntries - oldEntryCount + entries.length
      entriesByPath := c.entriesByPath.insert key ⟨key, entries, c.clock, fingerprints key⟩ }
    let c := (c.removeSkippedLargeNormalized key).2
    (true, (c.touch key).evictOldest)
  else (false, c.skipLarge key entries.length)

/-- The update is none where it gives up. -/
def updateFreshEntries (c : DirectoryCache) (path : Path)
    (update : Path → List EntryData → Option (List EntryData)) : Bool × DirectoryCache :=
  let key := normalizeCachePath path
  match c.entriesByPath.find key with
  | none => (false, c)
  | some snapshot =>
    match update key snapshot.entries with
    | none => (false, c)
    | some entries => c.replaceFreshEntries fingerprints key entries snapshot.entryCount

end DirectoryCache

section Deltas

variable (entries : List EntryData)

def entryIndexForName (name : Str) : Option Nat :=
  entries.findIdx? fun entry => entry.name = name

variable (places : Places)

def entryIndexForPath (entries : List EntryData) (directory path : Path) : Option Nat :=
  (places.entryName directory path).bind fun name => entryIndexForName entries (trim name)

/-- The loop of `apply_items_added`: the cached entries, and those to merge into them. -/
structure Additions where
  cached : List EntryData
  added : List EntryData
  addedIndexByName : Map Str Nat
  replacedExisting : Bool

def Additions.add (indexByName : Map Str Nat) (a : Additions) (entry : EntryData) : Additions :=
  match indexByName.find entry.name with
  | some index =>
    { a with
      cached := a.cached.set index entry
      replacedExisting := true }
  | none =>
    match a.addedIndexByName.find entry.name with
    | some index => { a with added := a.added.set index entry }
    | none =>
      { a with
        added := a.added ++ [entry]
        addedIndexByName := a.addedIndexByName.insert entry.name a.added.length }

def indexByName : Map Str Nat :=
  entries.zipIdx.foldl (fun index pair => index.insert pair.1.name pair.2) .empty

def mergeSortedCacheEntries (entries added : List EntryData) (trash : Bool) : List EntryData :=
  if added = [] then entries
  else if entries = [] then added
  else (BackMerge.walk (EntryData.entrySortCmp trash) (fun _ _ => ()) (entries.length + added.length) entries.reverse
    added.reverse [] ()).1

def addEntries (trash : Bool) (entries cached : List EntryData) : List EntryData :=
  let a := entries.foldl (Additions.add (indexByName cached)) ⟨cached, [], .empty, false⟩
  let cached := if a.replacedExisting then EntryData.sortEntries a.cached trash else a.cached
  if a.added = [] then cached else mergeSortedCacheEntries cached (EntryData.sortEntries a.added trash) trash

def deletePaths (paths : List Path) (directory : Path) (cached : List EntryData) : List EntryData :=
  let removedIndexes := paths.filterMap fun path => entryIndexForPath places cached directory path
  (cached.zipIdx.filter fun pair => pair.2 ∉ removedIndexes).map Prod.fst

def refreshPair (directory : Path) (cached : List EntryData) (pair : RefreshPair Path EntryData) :
    List EntryData :=
  match pair.entry with
  | some entry =>
    match (entryIndexForPath places cached directory pair.oldPath).or (entryIndexForName cached entry.name) with
    | some index => cached.set index entry
    | none => cached ++ [entry]
  | none =>
    match entryIndexForPath places cached directory pair.oldPath with
    | some index => cached.eraseIdx index
    | none => cached

def refreshPairs (trash : Bool) (pairs : List (RefreshPair Path EntryData)) (directory : Path)
    (cached : List EntryData) : List EntryData :=
  EntryData.sortEntries (pairs.foldl (refreshPair places directory) cached) trash

end Deltas

namespace DirectoryCache

variable (places : Places)

def applyItemsAdded (fingerprints : Fingerprints) (c : DirectoryCache) (path : Path)
    (entries : List EntryData) :
    Bool × DirectoryCache :=
  if entries = [] then (false, c)
  else c.updateFreshEntries fingerprints path fun directory cached =>
    some (addEntries (places.isTrashFilesDir directory) entries cached)

def applyItemsDeleted (fingerprints : Fingerprints) (c : DirectoryCache) (path : Path) (paths : List Path) :
    Bool × DirectoryCache :=
  c.updateFreshEntries fingerprints path fun directory cached => some (deletePaths places paths directory cached)

def applyItemsRefreshed (fingerprints : Fingerprints) (c : DirectoryCache) (path : Path)
    (pairs : List (RefreshPair Path EntryData)) : Bool × DirectoryCache :=
  c.updateFreshEntries fingerprints path fun directory cached =>
    some (refreshPairs places (places.isTrashFilesDir directory) pairs directory cached)

end DirectoryCache

end TensorDE.Files
