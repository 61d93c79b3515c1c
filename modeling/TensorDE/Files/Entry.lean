import TensorDE.Lib.Sorting
import TensorDE.Files.Path

set_option linter.dupNamespace false

namespace TensorDE.Files

open Utf8

abbrev ItemId := Nat

namespace ItemId

def unassigned : ItemId := 0

def isAssigned (id : ItemId) : Bool := id ≠ unassigned

theorem isAssigned_iff {id : ItemId} : id.isAssigned ↔ 0 < id :=
  decide_eq_true_iff.trans Nat.pos_iff_ne_zero.symm

end ItemId

structure EntryData where
  name : Str
  nameWidthUnits : Nat
  targetPath : Option Path
  sizeBytes : Nat
  modifiedSecs : Option Nat
  metadataComplete : Bool
  mimeType : Option String
  mimeMagicChecked : Bool
  trashOriginalPath : Option Path
  trashDeletionTime : Option Str
  isDir : Bool
deriving DecidableEq

structure EntryMetadataRole where
  sizeBytes : Nat
  modifiedSecs : Option Nat
  mimeType : Option String
  mimeMagicChecked : Bool
deriving DecidableEq

structure ModelEntry where
  id : ItemId
  entry : EntryData
  metadataRole : Option EntryMetadataRole
  metadataRefreshPending : Bool
  thumbnailPath : Option Path
  thumbnailFailed : Bool
deriving DecidableEq

def genericBinaryMime : String := "application/octet-stream"

def mimeMagicResolutionRequired (isDir : Bool) (sizeBytes : Nat) (mimeType : Option String)
    (mimeMagicChecked : Bool) : Bool :=
  !mimeMagicChecked && !isDir && decide (0 < sizeBytes) && decide (mimeType = some genericBinaryMime)

def toAsciiLowercase (b : UInt8) : UInt8 := if 0x41 ≤ b ∧ b ≤ 0x5A then b + 0x20 else b

def asciiCaseInsensitiveCmp (left right : Str) : Ordering :=
  compare ((encode left).map toAsciiLowercase) ((encode right).map toAsciiLowercase)

def entryNameCmp (left right : Str) : Ordering :=
  (asciiCaseInsensitiveCmp left right).then (compare (encode left) (encode right))

namespace ModelEntry

def fromEntry (entry : EntryData) : ModelEntry := ⟨ItemId.unassigned, entry, none, false, none, false⟩

def name (e : ModelEntry) : Str := e.entry.name

def isDir (e : ModelEntry) : Bool := e.entry.isDir

variable (e : ModelEntry)

def effectiveSizeBytes : Nat := (e.metadataRole.map (·.sizeBytes)).getD e.entry.sizeBytes

def effectiveModifiedSecs : Option Nat :=
  (e.metadataRole.map (·.modifiedSecs)).getD e.entry.modifiedSecs

def effectiveMetadataComplete : Bool := e.metadataRole.isSome || e.entry.metadataComplete

def effectiveMimeType : Option String :=
  (e.metadataRole.bind (·.mimeType)).or e.entry.mimeType

def baseMetadataRole : EntryMetadataRole :=
  ⟨e.entry.sizeBytes, e.entry.modifiedSecs, e.entry.mimeType, e.entry.mimeMagicChecked⟩

def effectiveMetadataRole : EntryMetadataRole := e.metadataRole.getD e.baseMetadataRole

def sortCmp (left right : ModelEntry) : Ordering :=
  ((compare right.isDir left.isDir).then (entryNameCmp left.name right.name)).then
    (compare left.effectiveSizeBytes right.effectiveSizeBytes)

def metadataRoleMatchesBaseEntry (role : EntryMetadataRole) : Bool :=
  e.entry.metadataComplete && decide (e.baseMetadataRole = role)

/-- The role to store: none where the entry itself says as much. -/
def normalizedRole (role : EntryMetadataRole) : Option EntryMetadataRole :=
  if e.metadataRoleMatchesBaseEntry role then none else some role

def newRequiresAsyncMetadataRole : Bool :=
  !e.isDir && (!e.entry.metadataComplete ||
    mimeMagicResolutionRequired e.isDir e.entry.sizeBytes e.entry.mimeType e.entry.mimeMagicChecked)

def preservePendingEntryMetadataRole (old new : ModelEntry) : ModelEntry :=
  if old.name ≠ new.name ∨ old.isDir ≠ new.isDir ∨ !old.effectiveMetadataComplete ∨
      !new.newRequiresAsyncMetadataRole then new
  else if !old.effectiveMetadataRole.mimeMagicChecked then new
  else if old.effectiveMetadataRole.sizeBytes = new.baseMetadataRole.sizeBytes ∧
      old.effectiveMetadataRole.modifiedSecs = new.baseMetadataRole.modifiedSecs then
    { new with metadataRole := new.normalizedRole old.effectiveMetadataRole }
  else new

def thumbnailBaseCanBeReused (old new : ModelEntry) : Bool :=
  !(old.isDir || new.isDir || decide (old.name ≠ new.name) || !old.effectiveMetadataComplete ||
    !new.effectiveMetadataComplete || decide (old.effectiveSizeBytes ≠ new.effectiveSizeBytes) ||
    old.effectiveModifiedSecs.isNone || decide (old.effectiveModifiedSecs ≠ new.effectiveModifiedSecs))

def reusableThumbnailPath (old new : ModelEntry) : Option Path :=
  if thumbnailBaseCanBeReused old new then old.thumbnailPath else none

def reusableThumbnailFailed (old new : ModelEntry) : Bool :=
  thumbnailBaseCanBeReused old new && decide (old.effectiveMimeType = new.effectiveMimeType) && old.thumbnailFailed

def preserveThumbnail (old new : ModelEntry) : ModelEntry :=
  { new with
    thumbnailPath := reusableThumbnailPath old new
    thumbnailFailed := reusableThumbnailFailed old new }

def preserveRefreshedEntryRoles (old new : ModelEntry) : ModelEntry :=
  preserveThumbnail old (preservePendingEntryMetadataRole old new)

end ModelEntry

inductive SortRole where
  | name
  | modified
  | size
  | trashOriginalPath
  | trashDeletionTime
deriving DecidableEq

inductive SortOrder where
  | ascending
  | descending
deriving DecidableEq

structure SortDescriptor where
  role : SortRole
  order : SortOrder
  foldersFirst : Bool
  hiddenLast : Bool
deriving DecidableEq

def SortDescriptor.default : SortDescriptor := ⟨.name, .ascending, true, false⟩

def SortDescriptor.forDirectory (places : Places) (directory : Path) : SortDescriptor :=
  if places.isTrashFilesDir directory then ⟨.trashDeletionTime, .descending, true, false⟩ else .default

def applySortOrder (ordering : Ordering) : SortOrder → Ordering
  | .ascending => ordering
  | .descending => ordering.swap

variable (e : ModelEntry)

def trashSortBucket : Nat :=
  if e.entry.trashDeletionTime.isSome then 0 else if e.entry.trashOriginalPath.isSome then 1 else 2

def trashOriginalPathKey : Str :=
  match e.entry.trashOriginalPath with
  | none => []
  | some path => lossy ((path.parent.filter fun parent => parent.toBytes ≠ []).getD path).toBytes

def trashDeletionTimeKey : OsStr := encode (e.entry.trashDeletionTime.getD [])

def trashDeletionSortCmp (left right : ModelEntry) (order : SortOrder) : Ordering :=
  ((compare (trashSortBucket left) (trashSortBucket right)).then
    (applySortOrder (compare (trashDeletionTimeKey left) (trashDeletionTimeKey right)) order)).then
    (left.sortCmp right)

def trashOriginalPathSortCmp (left right : ModelEntry) (order : SortOrder) : Ordering :=
  ((compare (trashSortBucket left) (trashSortBucket right)).then
    (applySortOrder (entryNameCmp (trashOriginalPathKey left) (trashOriginalPathKey right)) order)).then
    (left.sortCmp right)

def roleSortCmp (left right : ModelEntry) : SortRole → Ordering
  | .name => entryNameCmp left.name right.name
  | .modified => compare (left.effectiveModifiedSecs.getD 0) (right.effectiveModifiedSecs.getD 0)
  | .size => compare left.effectiveSizeBytes right.effectiveSizeBytes
  | .trashOriginalPath => .eq
  | .trashDeletionTime => .eq

def isHidden : Bool := e.name.head? = some '.'

/-- The comparison of the role a list is sorted by, behind the hidden entries and the folders. -/
def sortRoleCmp (left right : ModelEntry) (sort : SortDescriptor) : Ordering :=
  match sort.role with
  | .trashOriginalPath => trashOriginalPathSortCmp left right sort.order
  | .trashDeletionTime => trashDeletionSortCmp left right sort.order
  | role =>
    ((applySortOrder (roleSortCmp left right role) sort.order).then (entryNameCmp left.name right.name)).then
      (compare left.effectiveSizeBytes right.effectiveSizeBytes)

def sortCmp (sort : SortDescriptor) (left right : ModelEntry) : Ordering :=
  ((if sort.hiddenLast then compare (isHidden left) (isHidden right) else .eq).then
    (if sort.foldersFirst ∨ sort.role = .size then compare right.isDir left.isDir else .eq)).then
    (sortRoleCmp left right sort)

def sortModelEntries (entries : List ModelEntry) (sort : SortDescriptor) : List ModelEntry :=
  Sorting.sortBy (sortCmp sort) entries

namespace EntryData

def sortCmp (left right : EntryData) : Ordering :=
  ((compare right.isDir left.isDir).then (entryNameCmp left.name right.name)).then
    (compare left.sizeBytes right.sizeBytes)

def trashSortBucket (entry : EntryData) : Nat :=
  if entry.trashDeletionTime.isSome then 0 else if entry.trashOriginalPath.isSome then 1 else 2

def trashSortCmp (left right : EntryData) : Ordering :=
  ((compare left.trashSortBucket right.trashSortBucket).then
    (compare (encode (right.trashDeletionTime.getD [])) (encode (left.trashDeletionTime.getD [])))).then
    (left.sortCmp right)

def entrySortCmp (trash : Bool) (left right : EntryData) : Ordering :=
  if trash then trashSortCmp left right else sortCmp left right

def sortEntries (entries : List EntryData) (trash : Bool) : List EntryData :=
  Sorting.sortBy (entrySortCmp trash) entries

end EntryData

section Order

open Sorting Std

theorem transCmp_entryNameCmp : TransCmp entryNameCmp :=
  transCmp_then (transCmp_on fun name => (encode name).map toAsciiLowercase) (transCmp_on encode)

theorem entryNameCmp_eq_iff {left right : Str} : entryNameCmp left right = .eq ↔ left = right := by
  constructor
  · grind [entryNameCmp, encode_injective]
  · rintro rfl
    have := transCmp_entryNameCmp
    exact ReflCmp.compare_self

theorem transCmp_applySortOrder {cmp : ModelEntry → ModelEntry → Ordering} (h : TransCmp cmp) (order : SortOrder) :
    TransCmp fun left right => applySortOrder (cmp left right) order := by
  cases order with
  | ascending => exact h
  | descending => exact transCmp_swap h

theorem transCmp_byName : TransCmp fun left right : ModelEntry => entryNameCmp left.name right.name :=
  transCmp_comap transCmp_entryNameCmp ModelEntry.name

theorem transCmp_bySize :
    TransCmp fun left right : ModelEntry => compare left.effectiveSizeBytes right.effectiveSizeBytes :=
  transCmp_on ModelEntry.effectiveSizeBytes

theorem transCmp_foldersFirst : TransCmp fun left right : ModelEntry => compare right.isDir left.isDir :=
  transCmp_flip (transCmp_on ModelEntry.isDir)

theorem transCmp_sortCmpOfEntry : TransCmp ModelEntry.sortCmp :=
  transCmp_then (transCmp_then transCmp_foldersFirst transCmp_byName) transCmp_bySize

theorem transCmp_roleSortCmp (role : SortRole) : TransCmp fun left right => roleSortCmp left right role := by
  cases role with
  | name => exact transCmp_byName
  | modified => exact transCmp_on fun e : ModelEntry => e.effectiveModifiedSecs.getD 0
  | size => exact transCmp_bySize
  | trashOriginalPath => exact transCmp_eq
  | trashDeletionTime => exact transCmp_eq

theorem transCmp_sortRoleCmp (sort : SortDescriptor) : TransCmp fun left right => sortRoleCmp left right sort := by
  have hrole := fun role => transCmp_then (transCmp_then
    (transCmp_applySortOrder (transCmp_roleSortCmp role) sort.order) transCmp_byName) transCmp_bySize
  unfold sortRoleCmp
  cases sort.role with
  | trashOriginalPath =>
    exact transCmp_then (transCmp_then (transCmp_on trashSortBucket)
      (transCmp_applySortOrder (transCmp_comap transCmp_entryNameCmp trashOriginalPathKey) sort.order))
      transCmp_sortCmpOfEntry
  | trashDeletionTime =>
    exact transCmp_then (transCmp_then (transCmp_on trashSortBucket)
      (transCmp_applySortOrder (transCmp_on trashDeletionTimeKey) sort.order)) transCmp_sortCmpOfEntry
  | name => exact hrole .name
  | modified => exact hrole .modified
  | size => exact hrole .size

theorem transCmp_sortCmp (sort : SortDescriptor) : TransCmp (sortCmp sort) :=
  transCmp_then (transCmp_then (transCmp_ite _ (transCmp_on isHidden)) (transCmp_ite _ transCmp_foldersFirst))
    (transCmp_sortRoleCmp sort)

theorem sortModelEntries_perm (entries : List ModelEntry) (sort : SortDescriptor) :
    (sortModelEntries entries sort).Perm entries :=
  sortBy_perm _ entries

theorem sortModelEntries_sorted (entries : List ModelEntry) (sort : SortDescriptor) :
    (sortModelEntries entries sort).Pairwise fun a b => Sorting.le (sortCmp sort) a b :=
  sortBy_sorted (transCmp_sortCmp sort) entries

/-- Two entries that every sort order takes for the same. -/
structure SameKey (a b : ModelEntry) : Prop where
  name : a.name = b.name
  isDir : a.isDir = b.isDir
  size : a.effectiveSizeBytes = b.effectiveSizeBytes
  modified : a.effectiveModifiedSecs = b.effectiveModifiedSecs
  original : a.entry.trashOriginalPath = b.entry.trashOriginalPath
  deletion : a.entry.trashDeletionTime = b.entry.trashDeletionTime

variable {a b : ModelEntry}

theorem sameKey_of_entry (he : a.entry = b.entry) (hs : a.effectiveSizeBytes = b.effectiveSizeBytes)
    (hm : a.effectiveModifiedSecs = b.effectiveModifiedSecs) : SameKey a b :=
  ⟨congrArg EntryData.name he, congrArg EntryData.isDir he, hs, hm, congrArg EntryData.trashOriginalPath he,
    congrArg EntryData.trashDeletionTime he⟩

theorem SameKey.refl (a : ModelEntry) : SameKey a a := ⟨rfl, rfl, rfl, rfl, rfl, rfl⟩

variable {a' b' : ModelEntry}

theorem SameKey.sortCmp (ha : SameKey a a') (hb : SameKey b b') (sort : SortDescriptor) :
    Files.sortCmp sort a b = Files.sortCmp sort a' b' := by
  unfold Files.sortCmp sortRoleCmp trashOriginalPathSortCmp trashDeletionSortCmp ModelEntry.sortCmp roleSortCmp
    trashOriginalPathKey trashDeletionTimeKey trashSortBucket isHidden
  simp only [ha.name, ha.isDir, ha.size, ha.modified, ha.original, ha.deletion, hb.name, hb.isDir, hb.size,
    hb.modified, hb.original, hb.deletion]

variable {sort : SortDescriptor}

theorem SameKey.le (ha : SameKey a a') (hb : SameKey b b')
    (h : Sorting.le (Files.sortCmp sort) a b) : Sorting.le (Files.sortCmp sort) a' b' := by
  rwa [Sorting.le, ha.sortCmp hb] at h

theorem then_then_of_ne {o o' : Ordering} (h : o' ≠ .eq) (s : Ordering) : (o.then o').then s = o.then o' := by
  cases o <;> cases o' <;> first | rfl | exact absurd rfl h

/-- Entries of different names are told apart before their sizes count, unless the sort is by metadata. -/
theorem sortCmp_of_entries (ha : a.entry = a'.entry) (hb : b.entry = b'.entry)
    (hne : a.name ≠ b.name) (hm : sort.role ≠ .modified) (hs : sort.role ≠ .size) :
    sortCmp sort a b = sortCmp sort a' b' := by
  obtain ⟨ia, ea, ra, pa, ta, fa⟩ := a
  obtain ⟨ia', ea', ra', pa', ta', fa'⟩ := a'
  obtain ⟨ib, eb, rb, pb, tb, fb⟩ := b
  obtain ⟨ib', eb', rb', pb', tb', fb'⟩ := b'
  obtain rfl : ea = ea' := ha
  obtain rfl : eb = eb' := hb
  have hname : entryNameCmp ea.name eb.name ≠ .eq := mt entryNameCmp_eq_iff.mp hne
  cases hr : sort.role with
  | modified => exact absurd hr hm
  | size => exact absurd hr hs
  | name =>
    grind [sortCmp, sortRoleCmp, roleSortCmp, isHidden, ModelEntry.name, ModelEntry.isDir, then_then_of_ne]
  | trashOriginalPath =>
    grind [sortCmp, sortRoleCmp, trashOriginalPathSortCmp, ModelEntry.sortCmp, trashSortBucket, trashOriginalPathKey,
        isHidden, ModelEntry.name, ModelEntry.isDir, then_then_of_ne]
  | trashDeletionTime =>
    grind [sortCmp, sortRoleCmp, trashDeletionSortCmp, ModelEntry.sortCmp, trashSortBucket, trashDeletionTimeKey,
        isHidden, ModelEntry.name, ModelEntry.isDir, then_then_of_ne]

end Order

end TensorDE.Files
