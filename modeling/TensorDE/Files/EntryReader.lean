import Mathlib.Data.List.ReduceOption
import TensorDE.Files.ModelContent

namespace TensorDE.Files

open Utf8 List

structure FileName where
  bytes : OsStr
  nonempty : bytes ≠ []
  noSlash : Path.slash ∉ bytes
  noNul : (0 : UInt8) ∉ bytes
  notDot : bytes ≠ [Path.dot]
  notDotDot : bytes ≠ Path.dotDot

structure Metadata where
  isDir : Bool
  len : Nat
  /-- In seconds since the epoch. -/
  modified : Option Int

/-- An item of `read_dir`: `target` is what `fs::metadata` says, which follows a link. -/
structure DirEntry where
  fileName : FileName
  isSymlink : Option Bool
  metadata : Option Metadata
  target : Option Metadata

structure TrashMetadata where
  originalPath : Path
  deletionDate : Option Str

/-- What the reading of a directory takes from elsewhere: the places, the database of types, and the
information that the trash keeps about an item. -/
structure Surroundings where
  places : Places
  mimeForName : Str → Bool → String
  trashMetadata : Path → Option TrashMetadata

def Places.ofTrashHome (trashHome : Path) (isNetworkPath : Path → Bool) : Places where
  trashFilesDir := trashHome.join (encode "files".toList)
  trashInfoDir := trashHome.join (encode "info".toList)
  isNetworkPath

def systemTimeSecs (time : Int) : Nat := time.toNat

def EntryMetadataRole.fromMetadata (name : Str) (isDir : Bool) (metadata : Metadata)
    (mimeForName : Str → Bool → String) : EntryMetadataRole where
  sizeBytes := if isDir then 0 else metadata.len
  modifiedSecs := metadata.modified.map systemTimeSecs
  mimeType := some (mimeForName name isDir)
  mimeMagicChecked :=
    isDir || decide ((if isDir then 0 else metadata.len) = 0) || decide (mimeForName name isDir ≠ genericBinaryMime)

def nameWidthUnits (name : Str) : Nat := min (name.map fun c => if c.toNat < 128 then 1 else 2).sum 0xFFFF

def completeEntryData (name : Str) (metadata : Metadata) (mimeForName : Str → Bool → String) : EntryData where
  name
  nameWidthUnits := nameWidthUnits name
  targetPath := none
  sizeBytes := (EntryMetadataRole.fromMetadata name metadata.isDir metadata mimeForName).sizeBytes
  modifiedSecs := (EntryMetadataRole.fromMetadata name metadata.isDir metadata mimeForName).modifiedSecs
  metadataComplete := true
  mimeType := (EntryMetadataRole.fromMetadata name metadata.isDir metadata mimeForName).mimeType
  mimeMagicChecked := (EntryMetadataRole.fromMetadata name metadata.isDir metadata mimeForName).mimeMagicChecked
  trashOriginalPath := none
  trashDeletionTime := none
  isDir := metadata.isDir

namespace DirEntry

/-- The metadata of the file behind a link, or of the link where there is none. -/
def directoryEntryMetadata (item : DirEntry) : Option Metadata :=
  item.isSymlink.bind fun isSymlink => if isSymlink then item.target.or item.metadata else item.metadata

def path (directory : Path) (item : DirEntry) : Path := directory.join item.fileName.bytes

def name (item : DirEntry) : Str := trim (lossy item.fileName.bytes)

end DirEntry

namespace Surroundings

variable (env : Surroundings) (directory : Path)

def decorateTrashEntry (entry : EntryData) (path : Path) : EntryData :=
  match env.trashMetadata path with
  | none => entry
  | some metadata =>
    { entry with
      trashOriginalPath := some metadata.originalPath
      trashDeletionTime := metadata.deletionDate }

/-- The entry of an item; a name of white space only, and metadata that cannot be read, give none. -/
def readItem (item : DirEntry) : Option EntryData :=
  if item.name = [] then none
  else if env.places.isTrashFilesDir directory then
    item.directoryEntryMetadata.map fun metadata =>
      env.decorateTrashEntry (completeEntryData item.name metadata env.mimeForName) (item.path directory)
  else item.directoryEntryMetadata.map fun metadata => completeEntryData item.name metadata env.mimeForName

/-- The batches handed over, and whether the directory was read to its end. -/
structure Reading where
  batches : List (List EntryData)
  completed : Bool

section Loop

variable (batchSize : Nat) (isCancelled : Nat → Bool)

def lastBatch (batch : List EntryData) (batches : List (List EntryData)) : List (List EntryData) :=
  if batch = [] then batches
  else batches ++ [EntryData.sortEntries batch (env.places.isTrashFilesDir directory)]

/-- The loop over the items from the one at `index` on. `isCancelled` gives the answer to each question: the first
was asked before the loop, and every 64 items there is one. -/
def readLoop : List (Option DirEntry) → Nat → List EntryData → List (List EntryData) → Reading
  | [], index, batch, batches =>
    if isCancelled (1 + (index + 63) / 64) then ⟨batches, false⟩ else ⟨env.lastBatch directory batch batches, true⟩
  | item :: items, index, batch, batches =>
    if index % 64 = 0 ∧ isCancelled (1 + index / 64) then ⟨batches, false⟩
    else match item.bind (env.readItem directory) with
      | none => readLoop items (index + 1) batch batches
      | some entry =>
        if max batchSize 1 ≤ (batch ++ [entry]).length then
          readLoop items (index + 1) [] (env.lastBatch directory (batch ++ [entry]) batches)
        else readLoop items (index + 1) (batch ++ [entry]) batches

/-- `items` is what `read_dir` gives; there is nothing where it fails. -/
def readEntryBatchesSyncCancellable (items : Option (List (Option DirEntry))) : Option Reading :=
  if isCancelled 0 then some ⟨[], false⟩
  else items.map fun items => env.readLoop directory batchSize isCancelled items 0 [] []

theorem lastBatch_perm (batch : List EntryData) (batches : List (List EntryData)) :
    (env.lastBatch directory batch batches).flatten.Perm (batches.flatten ++ batch) := by
  unfold lastBatch
  split
  · rename_i hnil
    rw [hnil, append_nil]
  · rw [flatten_append, flatten_singleton]
    exact (Sorting.sortBy_perm _ batch).append_left _

theorem readLoop_perm (items : List (Option DirEntry)) (index : Nat) (batch : List EntryData)
    (batches : List (List EntryData)) (h : (env.readLoop directory batchSize isCancelled items index batch batches).completed) :
    (env.readLoop directory batchSize isCancelled items index batch batches).batches.flatten.Perm
      (batches.flatten ++ batch ++ items.reduceOption.filterMap (env.readItem directory)) := by
  induction items generalizing index batch batches with
  | nil =>
    rw [readLoop] at h ⊢
    split at h
    · cases h
    · rename_i hgoes
      simpa [hgoes] using env.lastBatch_perm directory batch batches
  | cons item items ih =>
    rw [readLoop] at h ⊢
    split at h
    · cases h
    · rename_i hgoes
      rw [if_neg hgoes]
      cases hread : item.bind (env.readItem directory) with
      | none =>
        rw [hread] at h
        refine (ih _ _ _ h).trans (List.Perm.of_eq ?_)
        cases item with
        | none => rfl
        | some item => simp_all
      | some entry =>
        obtain ⟨item, rfl, hitem⟩ := Option.bind_eq_some_iff.mp hread
        rw [hread] at h
        dsimp only at h ⊢
        rw [reduceOption_cons_of_some, filterMap_cons_some hitem]
        split at h
        · rename_i hfull
          rw [if_pos hfull]
          refine (ih _ _ _ h).trans ?_
          simpa using (env.lastBatch_perm directory (batch ++ [entry]) batches).append_right
            (items.reduceOption.filterMap (env.readItem directory))
        grind -linarith

theorem readEntryBatches_perm {items : List (Option DirEntry)} {reading : Reading}
    (h : env.readEntryBatchesSyncCancellable directory batchSize isCancelled (some items) = some reading)
    (hcompleted : reading.completed) :
    reading.batches.flatten.Perm (items.reduceOption.filterMap (env.readItem directory)) := by
  unfold readEntryBatchesSyncCancellable at h
  split at h
  · cases h
    cases hcompleted
  · obtain rfl := Option.some.inj h
    simpa using env.readLoop_perm directory batchSize isCancelled items 0 [] [] hcompleted

end Loop

end Surroundings

end TensorDE.Files
