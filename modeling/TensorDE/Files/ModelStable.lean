import TensorDE.Lib.BackMerge
import TensorDE.Files.ModelIndex

set_option linter.dupNamespace false

namespace TensorDE.Files

open Maps IndexCache Sorting Patch List

namespace DirectoryModel

variable {places : Places} {m m' : DirectoryModel}

/-- What every operation keeps, whatever it is given: each entry has an id of its own, the id index is right,
and the name index at least stays in the list. -/
structure Stable (m : DirectoryModel) : Prop where
  ids : (m.entries.map (·.id)).Nodup
  assigned : ∀ e ∈ m.entries, 0 < e.id ∧ e.id ≤ m.nextItemId
  idIndex : m.idIndex.Agrees m.indexGeneration (m.entries.map fun e => some e.id)
  pathRange : m.pathIndex.InRange m.indexGeneration m.entries.length

/-- What holds on top while no two entries have the same name. -/
structure Named (m : DirectoryModel) : Prop where
  names : (m.entries.map (·.name)).Nodup
  pathIndex : m.pathIndex.Agrees m.indexGeneration m.nameKeys

/-- What holds of the name index whether or not the names are different. -/
def Traced (m : DirectoryModel) : Prop := m.pathIndex.AgreesLoosely m.indexGeneration m.nameKeys

/-- A lookup of the name finds an entry of that name where there is one. -/
def TracedAt (m : DirectoryModel) (name : Utf8.Str) : Prop :=
  m.pathIndex.AgreesAt m.indexGeneration m.nameKeys name

theorem traced_iff : m.Traced ↔ ∀ name, m.TracedAt name := agreesLoosely_iff

theorem Stable.idKeys (h : m.Stable) : m.idKeys = m.entries.map fun e => some e.id := by
  refine map_congr_left fun e he => ?_
  exact if_pos (ItemId.isAssigned_iff.mpr (h.assigned e he).1)

/-- The entries may change in any way that keeps their ids in place. -/
theorem Stable.of_ids (h : m.Stable) {entries : List ModelEntry}
    (he : entries.map (·.id) = m.entries.map (·.id)) : ({ m with entries } : DirectoryModel).Stable where
  ids := he ▸ h.ids
  assigned e hmem := by
    grind +splitImp +splitIndPred [mem_map_of_mem]
  idIndex := by
    have hkeys := congrArg (List.map some) he
    simp only [map_map] at hkeys
    exact hkeys ▸ h.idIndex
  pathRange := by
    have hlen : entries.length = m.entries.length := by simpa using congrArg List.length he
    exact hlen ▸ h.pathRange

theorem Named.of_names (h : m.Named) {entries : List ModelEntry}
    (he : entries.map (·.name) = m.entries.map (·.name)) : ({ m with entries } : DirectoryModel).Named where
  names := he ▸ h.names
  pathIndex := by
    have hkeys : ({ m with entries } : DirectoryModel).nameKeys = m.nameKeys := by
      simpa [nameKeys, Function.comp_def] using congrArg (List.map some) he
    rw [hkeys]
    exact h.pathIndex

theorem Stable.markMetadataChanged (h : m.Stable) : m.markMetadataChanged.Stable := { h with }

theorem Named.markMetadataChanged (h : m.Named) : m.markMetadataChanged.Named := { h with }

theorem stable_markStructureChanged (hids : (m.entries.map (·.id)).Nodup)
    (hassigned : ∀ e ∈ m.entries, 0 < e.id ∧ e.id ≤ m.nextItemId) : m.markStructureChanged.Stable :=
  ⟨hids, hassigned, agrees_reset _ _ _, inRange_reset _ _ _⟩

theorem named_markStructureChanged (hnames : (m.entries.map (·.name)).Nodup) : m.markStructureChanged.Named :=
  ⟨hnames, agrees_reset _ _ _⟩

theorem Stable.rearranged (h : m.Stable) {entries : List ModelEntry} (hp : entries.Perm m.entries) (he : m'.entries = entries) (hn : m'.nextItemId = m.nextItemId) :
    m'.markStructureChanged.Stable := by
  grind -linarith +splitImp +splitIndPred [stable_markStructureChanged]

theorem stable_forDirectory (directory : Path) : (forDirectory places directory).Stable where
  ids := .nil
  assigned e h := by simp [forDirectory] at h
  idIndex _ := exact_nothing _ _
  pathRange _ key i h := by simp [forDirectory, IndexCache.new] at h

theorem named_forDirectory (directory : Path) : (forDirectory places directory).Named where
  names := .nil
  pathIndex _ := exact_nothing _ _

section Lookup

/-- A lookup touches nothing but the indexes. -/
structure Looked (m m' : DirectoryModel) : Prop where
  same : m' = { m with pathIndex := m'.pathIndex, idIndex := m'.idIndex }
  stable : m.Stable → m'.Stable
  named : m.Named → m'.Named
  tracedAt : ∀ name, m.TracedAt name → m'.TracedAt name

theorem Looked.traced (h : Looked m m') (ht : m.Traced) : m'.Traced :=
  traced_iff.mpr fun name => h.tracedAt name (traced_iff.mp ht name)

theorem Looked.refl (m : DirectoryModel) : Looked m m := ⟨rfl, id, id, fun _ => id⟩

section

variable (h : Looked m m')
include h

theorem Looked.trans {m'' : DirectoryModel} (h' : Looked m' m'') : Looked m m'' where
  same := by rw [h'.same, h.same]
  stable := h'.stable ∘ h.stable
  named := h'.named ∘ h.named
  tracedAt name := h'.tracedAt name ∘ h.tracedAt name

theorem Looked.entries : m'.entries = m.entries := by rw [h.same]

theorem Looked.sort : m'.sort = m.sort := by rw [h.same]

theorem Looked.nextItemId : m'.nextItemId = m.nextItemId := by rw [h.same]

theorem Looked.directory : m'.directory = m.directory := by rw [h.same]

theorem Looked.isNetwork : m'.isNetwork = m.isNetwork := by rw [h.same]

end

theorem nameKeys_length (m : DirectoryModel) : m.nameKeys.length = m.entries.length := by simp [nameKeys]

theorem looked_indexOfName (m : DirectoryModel) (name : Utf8.Str) : Looked m (m.indexOfName name).2 where
  same := rfl
  stable h := { h with
    pathRange := by
      have hrange := h.pathRange
      rw [← nameKeys_length] at hrange
      exact nameKeys_length m ▸ (hrange.lookup name).2 }
  named h := { h with pathIndex := (h.pathIndex.lookup (distinct_of_nodup h.names) name).2 }
  tracedAt _ h := IndexCache.AgreesAt.looked h name

variable {name : Utf8.Str} {i : Nat}

theorem Stable.indexOfName_lt (h : m.Stable) (hi : (m.indexOfName name).1 = some i) : i < m.entries.length := by
  have hrange := h.pathRange
  rw [← nameKeys_length] at hrange ⊢
  exact (hrange.lookup name).1 i hi

theorem Named.indexOfName_iff (h : m.Named) :
    (m.indexOfName name).1 = some i ↔ ∃ e, m.entries[i]? = some e ∧ e.name = name :=
  ((h.pathIndex.lookup (distinct_of_nodup h.names) name).1 i).trans at_map_some

theorem looked_indexOfItemId (m : DirectoryModel) (id : ItemId) : Looked m (m.indexOfItemId id).2 where
  same := rfl
  stable h := { h with
    idIndex := by
      simp only [indexOfItemId, h.idKeys]
      exact (h.idIndex.lookup (distinct_of_nodup h.ids) id).2 }
  named h := { h with }
  tracedAt _ h := h

theorem Stable.indexOfId_iff (h : m.Stable) {id : ItemId} :
    (m.indexOfId id).1 = some i ↔ ∃ e, m.entries[i]? = some e ∧ e.id = id := by
  unfold indexOfId
  split
  · simp only [indexOfItemId, h.idKeys]
    exact ((h.idIndex.lookup (distinct_of_nodup h.ids) id).1 i).trans at_map_some
  · rename_i ha
    refine ⟨nofun, fun ⟨e, he, hid⟩ => ?_⟩
    exact absurd (ItemId.isAssigned_iff.mpr (hid ▸ (h.assigned e (mem_of_getElem? he)).1)) ha

theorem looked_indexOfId (m : DirectoryModel) (id : ItemId) : Looked m (m.indexOfId id).2 := by
  unfold indexOfId
  split
  · exact looked_indexOfItemId m id
  · exact .refl m

theorem looked_indexOfPath (places : Places) (m : DirectoryModel) (path : Path) :
    Looked m (m.indexOfPath places path).2 := by
  unfold indexOfPath
  split
  · exact .refl m
  · split
    · exact looked_indexOfName m _
    · exact .refl m

variable {path : Path}

theorem indexOfTarget_lt (h : m.indexOfTarget path = some i) : i < m.entries.length := by
  unfold indexOfTarget at h
  split at h
  · exact (findIdx?_eq_some_iff_getElem.mp h).1
  · cases h

theorem Stable.indexOfPath_lt (h : m.Stable) (hi : (m.indexOfPath places path).1 = some i) :
    i < m.entries.length := by
  unfold indexOfPath at hi
  split at hi
  · rename_i index hindex
    obtain rfl := Option.some.inj hi
    exact indexOfTarget_lt hindex
  · split at hi
    · exact h.indexOfName_lt hi
    · cases hi

theorem looked_indexesOfPaths (places : Places) (paths : List Path) (m : DirectoryModel) :
    Looked m (m.indexesOfPaths places paths).2 := by
  induction paths generalizing m with
  | nil => exact .refl m
  | cons path paths ih => exact (looked_indexOfPath places m path).trans (ih _)

theorem Stable.indexesOfPaths_lt (h : m.Stable) (paths : List Path) :
    ∀ i ∈ (m.indexesOfPaths places paths).1, i < m.entries.length := by
  induction paths generalizing m with
  | nil => simp [indexesOfPaths]
  | cons path paths ih => grind +splitImp +splitIndPred [looked_indexOfPath, indexesOfPaths, h.indexOfPath_lt]

end Lookup

section Identity

open ModelEntry

@[simp] theorem preserveRefreshedEntryRoles_id (old new : ModelEntry) : (old.preserveRefreshedEntryRoles new).id = new.id := by
  grind +splitImp +splitIndPred [preserveRefreshedEntryRoles, preserveThumbnail, preservePendingEntryMetadataRole]

@[simp] theorem preserveRefreshedEntryRoles_entry (old new : ModelEntry) :
    (old.preserveRefreshedEntryRoles new).entry = new.entry := by
  grind +splitImp +splitIndPred [preserveRefreshedEntryRoles, preserveThumbnail, preservePendingEntryMetadataRole]

/-- What replaces an old entry when new data comes for it. -/
def refreshedEntry (old : ModelEntry) (entry : EntryData) : ModelEntry :=
  old.preserveRefreshedEntryRoles { fromEntry entry with id := old.id }

@[simp] theorem refreshedEntry_id (old : ModelEntry) (entry : EntryData) : (refreshedEntry old entry).id = old.id := by
  simp [refreshedEntry]

@[simp] theorem refreshedEntry_entry (old : ModelEntry) (entry : EntryData) : (refreshedEntry old entry).entry = entry := by
  simp [refreshedEntry, fromEntry]

@[simp] theorem refreshedEntry_name (old : ModelEntry) (entry : EntryData) : (refreshedEntry old entry).name = entry.name :=
  congrArg EntryData.name (refreshedEntry_entry old entry)

theorem fromEntry_unassigned (entry : EntryData) : (fromEntry entry).id.isAssigned = false := rfl

theorem assignIdentityFrom_fromEntry (m : DirectoryModel) (entry : EntryData) (old : ModelEntry) :
    m.assignIdentityFrom (fromEntry entry) old = (refreshedEntry old entry, m) := by
  simp [assignIdentityFrom, fromEntry_unassigned, refreshedEntry]

theorem assignNewIdentity_fromEntry (m : DirectoryModel) (entry : EntryData) : m.assignNewIdentity (fromEntry entry) =
      ({ fromEntry entry with id := m.nextItemId + 1 }, { m with nextItemId := m.nextItemId + 1 }) := by
  simp [assignNewIdentity, fromEntry_unassigned, allocateItemId]

theorem replaceAt_eq {A : Type} (c : Changes A) (index : Nat) (entry : EntryData)
    (structural : ModelEntry → ModelEntry → Bool) :
    c.replaceAt index entry structural = c.model.entries[index]?.map fun old =>
      { c with
        model := { c.model with entries := c.model.entries.set index (refreshedEntry old entry) }
        changed := c.changed ++ [index]
        changedStructure := c.changedStructure || structural old (refreshedEntry old entry) } := by
  simp only [Changes.replaceAt, assignIdentityFrom_fromEntry]

end Identity

section Merge

variable {sort : SortDescriptor}

theorem mergeLoop_cons (rounds : Nat) (e n : ModelEntry) (rest new done : List ModelEntry) (ranges : List ItemRange) :
    mergeLoop sort (rounds + 1) (e :: rest) (n :: new) done ranges =
      if sortCmp sort n e = .lt then mergeLoop sort rounds rest (n :: new) (e :: done) ranges
      else mergeLoop sort rounds (e :: rest) new (n :: done)
        (recordReverseInsertedRange ranges (rest.length + 1 + new.length)) := rfl

theorem mergeLoop_eq_walk (rounds : Nat) (existing new done : List ModelEntry) (ranges : List ItemRange) :
    mergeLoop sort rounds existing new done ranges = Prod.map id List.reverse
      (BackMerge.walk (sortCmp sort) recordReverseInsertedRange rounds existing new done ranges) := by
  induction rounds generalizing existing new done ranges with
  | zero => rfl
  | succ rounds ih =>
    cases new with
    | nil => rfl
    | cons n new =>
      cases existing with
      | nil => exact ih _ _ _ _
      | cons e rest => grind [mergeLoop_cons, BackMerge.walk]

theorem mergeSortedModelEntriesInPlace_perm (entries added : List ModelEntry) (sort : SortDescriptor) :
    (mergeSortedModelEntriesInPlace entries added sort).1.Perm (entries ++ added) := by
  grind [mergeSortedModelEntriesInPlace, mergeLoop_eq_walk, BackMerge.walk_perm, reverse_perm]

theorem mergeSortedModelEntriesInPlace_sorted {entries added : List ModelEntry}
    (he : entries.Pairwise fun a b => Sorting.le (sortCmp sort) a b)
    (ha : added.Pairwise fun a b => Sorting.le (sortCmp sort) a b) :
    (mergeSortedModelEntriesInPlace entries added sort).1.Pairwise fun a b => Sorting.le (sortCmp sort) a b := by
  grind [mergeSortedModelEntriesInPlace, mergeLoop_eq_walk, BackMerge.walk_sorted, transCmp_sortCmp]

theorem insertSortedModelEntries_perm (m : DirectoryModel) (added : List ModelEntry) :
    (m.insertSortedModelEntries added).2.entries.Perm (m.entries ++ added) := by
  grind [insertSortedModelEntries, mergeSortedModelEntriesInPlace_perm]

theorem insertSortedModelEntries_frame (m : DirectoryModel) (added : List ModelEntry) :
    (m.insertSortedModelEntries added).2 = { m with entries := (m.insertSortedModelEntries added).2.entries } := by
  unfold insertSortedModelEntries
  split
  · rfl
  · split <;> rfl

end Merge

section Added

open ModelEntry

variable {entry : EntryData} {c c' : Changes ModelEntry}

/-- What one round of the loop over added items does. -/
inductive Adds (c : Changes ModelEntry) (entry : EntryData) : Changes ModelEntry → Prop where
  | replaces {index : Nat} {old : ModelEntry} {m : DirectoryModel} : Looked c.model m →
      (c.model.indexOfName entry.name).1 = some index → c.model.entries[index]? = some old →
      Adds c entry { c with
        model := { m with entries := c.model.entries.set index (refreshedEntry old entry) }
        changed := c.changed ++ [index]
        changedStructure := c.changedStructure || decide (old.isDir ≠ (refreshedEntry old entry).isDir) }
  | joins {m : DirectoryModel} : Looked c.model m → (c.model.indexOfName entry.name).1 = none →
      Adds c entry { c with
        model := { m with nextItemId := c.model.nextItemId + 1 }
        added := c.added ++ [{ fromEntry entry with id := c.model.nextItemId + 1 }] }

theorem addItem_adds (h : c.model.Stable) (entry : EntryData) : ∃ c', addItem c entry = some c' ∧ Adds c entry c' := by
  have hlooked := looked_indexOfName c.model entry.name
  unfold addItem
  cases hfound : c.model.indexOfName entry.name with
  | mk index? m =>
    rw [hfound] at hlooked
    replace hlooked : Looked c.model m := hlooked
    cases index? with
    | some index =>
      have hindex : (c.model.indexOfName entry.name).1 = some index := by rw [hfound]
      obtain ⟨old, hold⟩ : ∃ old, c.model.entries[index]? = some old :=
        ⟨_, getElem?_eq_getElem (h.indexOfName_lt hindex)⟩
      refine ⟨_, ?_, .replaces hlooked hindex hold⟩
      simp only [replaceAt_eq, hlooked.entries, hold, Option.map_some]
    | none =>
      refine ⟨_, rfl, ?_⟩
      simp only [assignNewIdentity_fromEntry, hlooked.nextItemId]
      exact .joins hlooked (by rw [hfound])

/-- What the loop keeps, seen from the model it started from. -/
structure Grows (m : DirectoryModel) (c : Changes ModelEntry) : Prop where
  stable : c.model.Stable
  ids : c.model.entries.map (·.id) = m.entries.map (·.id)
  place : c.model.directory = m.directory ∧ c.model.isNetwork = m.isNetwork ∧ c.model.sort = m.sort
  counted : m.nextItemId ≤ c.model.nextItemId
  addedIds : (c.added.map (·.id)).Nodup
  addedFresh : ∀ e ∈ c.added, m.nextItemId < e.id ∧ e.id ≤ c.model.nextItemId

theorem grows_start (h : m.Stable) : Grows m (.start m) :=
  ⟨h, rfl, ⟨rfl, rfl, rfl⟩, Nat.le_refl _, .nil, fun _ he => absurd he not_mem_nil⟩

theorem Stable.count (h : m.Stable) (n : Nat) (hn : m.nextItemId ≤ n) :
    ({ m with nextItemId := n } : DirectoryModel).Stable :=
  { h with assigned := fun e he => ⟨(h.assigned e he).1, (h.assigned e he).2.trans hn⟩ }

theorem Grows.step (h : Grows m c) (ha : Adds c entry c') : Grows m c' := by
  cases ha with
  | @replaces index old m' hlooked hindex hold =>
    have hids : (c.model.entries.set index (refreshedEntry old entry)).map (·.id) = c.model.entries.map (·.id) :=
      map_set_same hold (refreshedEntry_id old entry)
    refine { stable := ?_, ids := hids.trans h.ids, place := ?_, counted := ?_, addedIds := h.addedIds, addedFresh := ?_ }
    · refine (hlooked.stable h.stable).of_ids ?_
      rw [hlooked.entries]
      exact hids
    · grind +splitImp +splitIndPred
    · exact hlooked.nextItemId ▸ h.counted
    · exact fun e he => ⟨(h.addedFresh e he).1, hlooked.nextItemId ▸ (h.addedFresh e he).2⟩
  | @joins m' hlooked hindex =>
    refine { stable := ?_, ids := ?_, place := ?_, counted := ?_, addedIds := ?_, addedFresh := ?_ }
    · exact (hlooked.stable h.stable).count _ (hlooked.nextItemId ▸ Nat.le_succ _)
    · exact (congrArg _ hlooked.entries).trans h.ids
    · grind +splitImp +splitIndPred
    · exact h.counted.trans (Nat.le_succ _)
    · grind +splitImp +splitIndPred
    grind +splitImp +splitIndPred

theorem addItems {P : Changes ModelEntry → List EntryData → Prop} (entries : List EntryData) (hg : Grows m c)
    (hp : P c entries) (hstep : ∀ c c' entry rest, Grows m c → P c (entry :: rest) → Adds c entry c' → P c' rest) :
    ∃ c', entries.foldlM addItem c = some c' ∧ Grows m c' ∧ P c' [] := by
  induction entries generalizing c with
  | nil => exact ⟨c, rfl, hg, hp⟩
  | cons entry entries ih =>
    obtain ⟨c₁, hc₁, ha⟩ := addItem_adds hg.stable entry
    grind [hg.step]

theorem Grows.disjoint (h : Grows m c) (hm : m.Stable) : ((c.model.entries ++ c.added).map (·.id)).Nodup := by
  rw [map_append, h.ids]
  refine hm.ids.append h.addedIds fun id hid hadd => ?_
  obtain ⟨e, he, rfl⟩ := mem_map.mp hid
  obtain ⟨a, ha, heq⟩ := mem_map.mp hadd
  exact absurd ((h.addedFresh a ha).1.trans_le (heq ▸ (hm.assigned e he).2)) (Nat.lt_irrefl _)

theorem Grows.assigned (h : Grows m c) : ∀ e ∈ c.model.entries ++ c.added, 0 < e.id ∧ e.id ≤ c.model.nextItemId := by
  grind +splitImp +splitIndPred

theorem stable_settleChanged (h : m.Stable) (changed : List Nat) (changedStructure : Bool) :
    (m.settleChanged changed changedStructure).2.Stable := by
  unfold settleChanged
  split
  · exact h.rearranged (sortModelEntries_perm _ _) rfl rfl
  · rename_i hsame
    rw [not_or, not_ne_iff] at hsame
    exact (h.of_ids hsame.2.symm).markMetadataChanged

theorem Grows.finished (h : Grows m c) (hm : m.Stable) {entries : List ModelEntry}
    (hp : entries.Perm (c.model.entries ++ c.added)) : ({ c.model with entries }.markStructureChanged).Stable :=
  stable_markStructureChanged ((hp.map _).nodup_iff.mpr (h.disjoint hm)) fun e he => h.assigned e (hp.mem_iff.mp he)

theorem Grows.finishAdded (h : Grows m c) (hm : m.Stable) : (finishAdded c).2.Stable := by
  grind [DirectoryModel.finishAdded, h.finished, sortModelEntries_perm, insertSortedModelEntries_frame,
      insertSortedModelEntries_perm, stable_settleChanged, h.stable]

theorem Stable.applyItemsAdded (h : m.Stable) (entries : List EntryData) :
    ∃ r, m.applyItemsAdded entries = some r ∧ r.2.Stable := by
  unfold DirectoryModel.applyItemsAdded
  split
  · exact ⟨_, rfl, h⟩
  · obtain ⟨c, hc, hg, -⟩ := addItems (P := fun _ _ => True) entries (grows_start h) trivial
      fun _ _ _ _ _ _ _ => trivial
    exact ⟨_, by rw [hc]; rfl, hg.finishAdded h⟩

end Added

section Deleted

theorem removeIndexes_sublist (entries : List ModelEntry) (indexes : List Nat) :
    (removeIndexes entries indexes).Sublist entries := by
  have h : ((entries.zipIdx.filter fun pair => pair.2 ∉ indexes).map Prod.fst).Sublist (entries.zipIdx.map Prod.fst) :=
    filter_sublist.map _
  rwa [zipIdx_map_fst] at h

theorem applyItemsDeleted_cases (places : Places) (m : DirectoryModel) (paths : List Path) :
    ∃ indexes m', Looked m m' ∧ indexes = (m.indexesOfPaths places paths).1 ∧
      ((indexes = [] ∧ m.applyItemsDeleted places paths = ([], m')) ∨
        (indexes ≠ [] ∧ m.applyItemsDeleted places paths = ([.itemsRemoved (rangesFromIndexes indexes)],
          { m' with entries := removeIndexes m.entries indexes }.markStructureChanged))) := by
  have hlooked := looked_indexesOfPaths places paths m
  unfold applyItemsDeleted
  by_cases hp : paths = []
  · subst hp
    exact ⟨[], m, .refl m, rfl, .inl ⟨rfl, rfl⟩⟩
  grind

theorem Stable.removed (h : m.Stable) {entries : List ModelEntry} (hs : entries.Sublist m.entries) :
    ({ m with entries }.markStructureChanged).Stable :=
  stable_markStructureChanged (h.ids.sublist (hs.map _)) fun e he => h.assigned e (hs.subset he)

theorem Stable.applyItemsDeleted (h : m.Stable) (places : Places) (paths : List Path) :
    (m.applyItemsDeleted places paths).2.Stable := by
  obtain ⟨indexes, m', hlooked, -, ⟨-, he⟩ | ⟨-, he⟩⟩ := applyItemsDeleted_cases places m paths
  · rw [he]
    exact hlooked.stable h
  · rw [he]
    exact (hlooked.stable h).removed (hlooked.entries ▸ removeIndexes_sublist _ _)

end Deleted

section Refreshed

variable {c c' : Changes EntryData} {pair : RefreshPair Path EntryData}

/-- What one round of the loop over refreshed items does. -/
inductive Refreshes (places : Places) (c : Changes EntryData) (pair : RefreshPair Path EntryData) :
    Changes EntryData → Prop where
  | removes : pair.entry = none → Refreshes places c pair { c with removed := c.removed ++ [pair.oldPath] }
  | replaces {entry : EntryData} {index : Nat} {old : ModelEntry} {m : DirectoryModel} : pair.entry = some entry →
      Looked c.model m → (c.model.indexOfPath places pair.oldPath).1 = some index →
      c.model.entries[index]? = some old →
      Refreshes places c pair { c with
        model := { m with entries := c.model.entries.set index (refreshedEntry old entry) }
        changed := c.changed ++ [index]
        changedStructure := c.changedStructure ||
          decide (old.name ≠ (refreshedEntry old entry).name ∨ old.isDir ≠ (refreshedEntry old entry).isDir) }
  | misses {entry : EntryData} {m : DirectoryModel} : pair.entry = some entry → Looked c.model m →
      (c.model.indexOfPath places pair.oldPath).1 = none →
      Refreshes places c pair { c with model := m, added := c.added ++ [entry] }

theorem refreshItem_refreshes (h : c.model.Stable) (places : Places) (pair : RefreshPair Path EntryData) :
    ∃ c', refreshItem places c pair = some c' ∧ Refreshes places c pair c' := by
  have hlooked := looked_indexOfPath places c.model pair.oldPath
  unfold refreshItem
  cases hentry : pair.entry with
  | none => exact ⟨_, rfl, .removes hentry⟩
  | some entry =>
    cases hfound : c.model.indexOfPath places pair.oldPath with
    | mk index? m =>
      rw [hfound] at hlooked
      replace hlooked : Looked c.model m := hlooked
      cases index? with
      | some index =>
        have hindex : (c.model.indexOfPath places pair.oldPath).1 = some index := by rw [hfound]
        obtain ⟨old, hold⟩ : ∃ old, c.model.entries[index]? = some old :=
          ⟨_, getElem?_eq_getElem (h.indexOfPath_lt hindex)⟩
        refine ⟨_, ?_, .replaces hentry hlooked hindex hold⟩
        simp only [replaceAt_eq, hlooked.entries, hold, Option.map_some]
      | none => exact ⟨_, rfl, .misses hentry hlooked (by rw [hfound])⟩

/-- What the loop keeps, seen from the model it started from. -/
structure Follows (m : DirectoryModel) (c : Changes EntryData) : Prop where
  stable : c.model.Stable
  ids : c.model.entries.map (·.id) = m.entries.map (·.id)
  place : c.model.directory = m.directory ∧ c.model.isNetwork = m.isNetwork ∧ c.model.sort = m.sort

theorem follows_start (h : m.Stable) : Follows m (.start m) := ⟨h, rfl, rfl, rfl, rfl⟩

theorem Follows.step (h : Follows m c) (hr : Refreshes places c pair c') : Follows m c' := by
  cases hr with
  | removes => exact { h with }
  | @replaces entry index old m' _ hlooked _ hold =>
    have hids : (c.model.entries.set index (refreshedEntry old entry)).map (·.id) = c.model.entries.map (·.id) :=
      map_set_same hold (refreshedEntry_id old entry)
    refine ⟨(hlooked.stable h.stable).of_ids ?_, hids.trans h.ids, hlooked.directory.trans h.place.1,
      hlooked.isNetwork.trans h.place.2.1, hlooked.sort.trans h.place.2.2⟩
    rw [hlooked.entries]
    exact hids
  | misses _ hlooked =>
    exact ⟨hlooked.stable h.stable, (congrArg _ hlooked.entries).trans h.ids, hlooked.directory.trans h.place.1,
      hlooked.isNetwork.trans h.place.2.1, hlooked.sort.trans h.place.2.2⟩

theorem refreshItems {P : Changes EntryData → List (RefreshPair Path EntryData) → Prop} (places : Places)
    (pairs : List (RefreshPair Path EntryData)) (hf : Follows m c) (hp : P c pairs)
    (hstep : ∀ c c' pair rest, Follows m c → P c (pair :: rest) → Refreshes places c pair c' → P c' rest) :
    ∃ c', pairs.foldlM (refreshItem places) c = some c' ∧ Follows m c' ∧ P c' [] := by
  induction pairs generalizing c with
  | nil => exact ⟨c, rfl, hf, hp⟩
  | cons pair pairs ih =>
    obtain ⟨c₁, hc₁, hr⟩ := refreshItem_refreshes hf.stable places pair
    grind [hf.step]

theorem Stable.applyItemsRefreshed (h : m.Stable) (places : Places) (pairs : List (RefreshPair Path EntryData)) :
    ∃ r, m.applyItemsRefreshed places pairs = some r ∧ r.2.Stable := by
  unfold DirectoryModel.applyItemsRefreshed
  split
  · exact ⟨_, rfl, h⟩
  · obtain ⟨c, hc, hf, -⟩ := refreshItems (P := fun _ _ => True) places pairs (follows_start h) trivial
      fun _ _ _ _ _ _ _ => trivial
    obtain ⟨added, ha, hs⟩ := (hf.stable.applyItemsDeleted places c.removed).applyItemsAdded c.added
    grind [finishRefreshed, Changes.settle, stable_settleChanged]

end Refreshed

section Listing

/-- The identities that the loop over the new entries gives out, without the list it writes them to. -/
def assignAll : List (ModelEntry × Nat) → List ModelEntry → Nat → List (ModelEntry × Nat) × Nat
  | [], _, next => ([], next)
  | (new, i) :: news, remaining, next =>
    match seekName new.name remaining with
    | (some old, rest) =>
      ((old.preserveRefreshedEntryRoles { new with id := old.id }, i) :: (assignAll news rest next).1,
        (assignAll news rest next).2)
    | (none, rest) =>
      (({ new with id := next + 1 }, i) :: (assignAll news rest (next + 1)).1, (assignAll news rest (next + 1)).2)

theorem foldl_visit {news : List (ModelEntry × Nat)} (h : ∀ new ∈ news, new.1.id.isAssigned = false) (a : Assignment) :
    (news.foldl Assignment.visit a).entries = writeAll a.entries (assignAll news a.remaining a.nextItemId).1 ∧
      (news.foldl Assignment.visit a).nextItemId = (assignAll news a.remaining a.nextItemId).2 := by
  induction news generalizing a with
  | nil => exact ⟨rfl, rfl⟩
  | cons new news ih => grind [Assignment.visit, assignAll, writeAll]

theorem seekName_sublist (name : Utf8.Str) (remaining : List ModelEntry) :
    ((seekName name remaining).1.toList ++ (seekName name remaining).2).Sublist remaining := by
  induction remaining with
  | nil => exact .refl _
  | cons old rest ih => grind [seekName]

theorem assignAll_positions (news : List (ModelEntry × Nat)) (remaining : List ModelEntry) (next : Nat) :
    (assignAll news remaining next).1.map (fun w => (w.1.entry, w.2)) = news.map fun w => (w.1.entry, w.2) := by
  induction news generalizing remaining next with
  | nil => rfl
  | cons new news ih =>
    unfold assignAll
    cases seekName new.1.name remaining with
    | mk old? rest =>
      cases old? with
      | none => simp [ih]
      | some old => simp [ih]

/-- Each id is one of the old entries that are left, or a new one; none is given out twice. -/
theorem assignAll_ids (news : List (ModelEntry × Nat)) {remaining : List ModelEntry} {next : Nat}
    (hn : (remaining.map (·.id)).Nodup) (hr : ∀ old ∈ remaining, 0 < old.id ∧ old.id ≤ next) :
    ((assignAll news remaining next).1.map (·.1.id)).Nodup ∧ next ≤ (assignAll news remaining next).2 ∧
      ∀ w ∈ (assignAll news remaining next).1, w.1.id ∈ remaining.map (·.id) ∨
        next < w.1.id ∧ w.1.id ≤ (assignAll news remaining next).2 := by
  induction news generalizing remaining next with
  | nil => exact ⟨.nil, Nat.le_refl _, fun w hw => absurd hw not_mem_nil⟩
  | cons new news ih =>
    have hsub := seekName_sublist new.1.name remaining
    unfold assignAll
    cases hseek : seekName new.1.name remaining with
    | mk old? rest =>
      rw [hseek] at hsub
      cases old? with
      | some old =>
        replace hsub : (old :: rest).Sublist remaining := hsub
        have hids := hn.sublist (hsub.map _)
        rw [map_cons, nodup_cons] at hids
        have hrest : ∀ e ∈ rest, 0 < e.id ∧ e.id ≤ next := fun e he => hr e (hsub.subset (mem_cons_of_mem _ he))
        obtain ⟨hnodup, hle, hout⟩ := ih hids.2 hrest
        refine ⟨?_, hle, ?_⟩
        · rw [map_cons, nodup_cons]
          grind [preserveRefreshedEntryRoles_id]
        · intro w hw
          obtain rfl | hw := mem_cons.mp hw
          · exact .inl (by simpa using ⟨old, hsub.subset mem_cons_self, rfl⟩)
          grind
      | none =>
        have hrest : ∀ e ∈ rest, 0 < e.id ∧ e.id ≤ next + 1 := fun e he =>
          ⟨(hr e (hsub.subset he)).1, (hr e (hsub.subset he)).2.trans (Nat.le_succ _)⟩
        obtain ⟨hnodup, hle, hout⟩ := ih (hn.sublist (hsub.map _)) hrest
        refine ⟨?_, (Nat.le_succ _).trans hle, ?_⟩
        · rw [map_cons, nodup_cons]
          refine ⟨fun hmem => ?_, hnodup⟩
          obtain ⟨w, hw, hid⟩ := mem_map.mp hmem
          obtain hin | hnew := hout w hw
          · obtain ⟨e, he, heq⟩ := mem_map.mp hin
            have hlt := (hr e (hsub.subset he)).2
            rw [heq, hid] at hlt
            exact absurd hlt (Nat.not_succ_le_self _)
          · exact absurd (hid ▸ hnew.1) (Nat.lt_irrefl _)
        grind +splitImp +splitIndPred

structure Identified (m : DirectoryModel) (entries : List EntryData) (r : List ModelEntry × DirectoryModel) : Prop where
  model : r.2 = { m with nextItemId := r.2.nextItemId }
  counted : m.nextItemId ≤ r.2.nextItemId
  ids : (r.1.map (·.id)).Nodup
  assigned : ∀ e ∈ r.1, 0 < e.id ∧ e.id ≤ r.2.nextItemId
  data : (r.1.map (·.entry)).Perm entries

theorem assignNewIdentities_identified (m : DirectoryModel) (entries : List EntryData) :
    Identified m entries (m.assignNewIdentities (entries.map ModelEntry.fromEntry)) ∧
      ∀ e ∈ (m.assignNewIdentities (entries.map ModelEntry.fromEntry)).1, m.nextItemId < e.id := by
  induction entries generalizing m with
  | nil => exact ⟨⟨rfl, Nat.le_refl _, .nil, fun e he => absurd he not_mem_nil, .nil⟩,
      fun e he => absurd he not_mem_nil⟩
  | cons entry entries ih =>
    obtain ⟨hi, hlt⟩ := ih { m with nextItemId := m.nextItemId + 1 }
    simp only [map_cons, assignNewIdentities, assignNewIdentity_fromEntry]
    have hcount := hi.counted
    refine ⟨⟨?_, ?_, ?_, ?_, ?_⟩, ?_⟩
    · rw [hi.model]
    · exact (Nat.le_succ _).trans hcount
    · grind [hi.ids]
    · grind +splitImp +splitIndPred
    · exact hi.data.cons entry
    grind

def newInNameOrder (entries : List EntryData) : List (ModelEntry × Nat) :=
  sortBy (fun left right => nameCmp left.1 right.1) (entries.map ModelEntry.fromEntry).zipIdx

theorem newInNameOrder_unassigned (entries : List EntryData) :
    ∀ new ∈ newInNameOrder entries, new.1.id.isAssigned = false := by
  intro new hnew
  have hmem : new ∈ (entries.map ModelEntry.fromEntry).zipIdx := mem_sortBy.mp hnew
  have hfst : new.1 ∈ (entries.map ModelEntry.fromEntry).zipIdx.map Prod.fst := mem_map_of_mem hmem
  rw [zipIdx_map_fst] at hfst
  obtain ⟨entry, -, he⟩ := mem_map.mp hfst
  rw [← he]
  rfl

/-- The loop by name gives the identities of `assignAll`, written back to the positions. -/
theorem assignListingIdentityByName_perm (m : DirectoryModel) (entries : List EntryData) :
    let out := assignAll (newInNameOrder entries) (sortBy nameCmp m.entries) m.nextItemId
    (m.assignListingIdentityByName (entries.map ModelEntry.fromEntry)).entries.Perm (out.1.map Prod.fst) ∧
      (m.assignListingIdentityByName (entries.map ModelEntry.fromEntry)).nextItemId = out.2 := by
  intro out
  obtain ⟨he, hn⟩ := foldl_visit (newInNameOrder_unassigned entries)
    ⟨sortBy nameCmp m.entries, m.nextItemId, entries.map ModelEntry.fromEntry⟩
  refine ⟨?_, hn⟩
  have hpositions := congrArg (List.map Prod.snd) (assignAll_positions (newInNameOrder entries)
    (sortBy nameCmp m.entries) m.nextItemId)
  simp only [map_map] at hpositions
  have hwrites : (out.1.map Prod.snd).Perm (range (entries.map ModelEntry.fromEntry).length) := by
    have hsorted : ((newInNameOrder entries).map Prod.snd).Perm
        ((entries.map ModelEntry.fromEntry).zipIdx.map Prod.snd) := (sortBy_perm _ _).map _
    rw [zipIdx_map_snd, ← range_eq_range'] at hsorted
    exact (List.Perm.of_eq hpositions).trans hsorted
  exact (List.Perm.of_eq he).trans (writeAll_perm hwrites)

theorem Stable.assignListingIdentity (h : m.Stable) (directory : Path) (entries : List EntryData) :
    Identified m entries (m.assignListingIdentity directory (entries.map ModelEntry.fromEntry)) := by
  unfold DirectoryModel.assignListingIdentity
  split
  · exact (assignNewIdentities_identified m entries).1
  · obtain ⟨hperm, hnext⟩ := assignListingIdentityByName_perm m entries
    have hsorted := sortBy_perm nameCmp m.entries
    have hold : ∀ old ∈ sortBy nameCmp m.entries, 0 < old.id ∧ old.id ≤ m.nextItemId := fun old ho =>
      h.assigned old (hsorted.mem_iff.mp ho)
    obtain ⟨hids, hcount, hout⟩ := assignAll_ids (newInNameOrder entries)
      ((hsorted.map _).nodup_iff.mpr h.ids) hold
    refine ⟨rfl, hnext ▸ hcount, ?_, fun e he => ?_, ?_⟩
    · grind
    · grind
    · refine (hperm.map _).trans ?_
      have hdata := congrArg (List.map Prod.fst) (assignAll_positions (newInNameOrder entries)
        (sortBy nameCmp m.entries) m.nextItemId)
      simp only [map_map] at hdata
      rw [map_map]
      refine (List.Perm.of_eq hdata).trans ?_
      have hback : ((newInNameOrder entries).map (fun w => w.1.entry)).Perm
          ((entries.map ModelEntry.fromEntry).zipIdx.map fun w => w.1.entry) := (sortBy_perm _ _).map _
      refine hback.trans (List.Perm.of_eq ?_)
      have hfst : ((entries.map ModelEntry.fromEntry).zipIdx.map Prod.fst).map ModelEntry.entry = entries := by
        rw [zipIdx_map_fst, map_map]
        exact map_id entries
      rwa [map_map] at hfst

@[simp] theorem keepIdentity_id (old new : ModelEntry) : (keepIdentity old new).id = old.id := by simp [keepIdentity]

@[simp] theorem keepIdentity_name (old new : ModelEntry) : (keepIdentity old new).name = old.name := by
  simp [keepIdentity, ModelEntry.name]

theorem map_zipWith_left {X Y Z W : Type} {f : X → Y → Z} {g : Z → W} {g' : X → W} (hg : ∀ x y, g (f x y) = g' x)
    {xs : List X} {ys : List Y} (h : xs.length = ys.length) : (List.zipWith f xs ys).map g = xs.map g' := by
  induction xs generalizing ys with
  | nil => simp
  | cons x xs ih =>
    cases ys with
    | nil => simp at h
    | cons y ys => simp [hg, ih (by simpa using h)]

theorem sameListing_iff {directory : Path} {entries : List ModelEntry} :
    m.sameListing directory entries ↔ m.directory = directory ∧
      m.entries.map (fun e => (e.name, e.isDir)) = entries.map fun e => (e.name, e.isDir) := by
  unfold sameListing
  simp only [Bool.and_eq_true, decide_eq_true_eq, and_assoc]
  refine and_congr_right fun _ => ?_
  generalize m.entries = olds
  induction olds generalizing entries with
  | nil => cases entries <;> simp
  | cons old olds ih =>
    cases entries with
    | nil => simp
    | cons e entries => grind

theorem Stable.installListing (h : m.Stable) (directory : Path) {entries : List ModelEntry}
    (hids : (entries.map (·.id)).Nodup) (hassigned : ∀ e ∈ entries, 0 < e.id ∧ e.id ≤ m.nextItemId) :
    (m.installListing places directory entries).2.Stable := by
  unfold DirectoryModel.installListing
  split
  · rename_i hsame
    have hlen := congrArg List.length (sameListing_iff.mp hsame).2
    simp only [length_map] at hlen
    exact (h.of_ids (map_zipWith_left keepIdentity_id hlen)).markMetadataChanged
  · exact stable_markStructureChanged hids hassigned

theorem Stable.replaceListing (h : m.Stable) (places : Places) (directory : Path) (entries : List EntryData) :
    (m.replaceListing places directory entries).2.Stable := by
  have hi := h.assignListingIdentity directory entries
  have hperm := sortModelEntries_perm (m.assignListingIdentity directory (entries.map ModelEntry.fromEntry)).1
    (m.sortFor places directory)
  refine Stable.installListing ?_ directory ((hperm.map _).nodup_iff.mpr hi.ids) fun e he =>
    hi.assigned e (hperm.mem_iff.mp he)
  rw [hi.model]
  exact h.count _ hi.counted

theorem replaceListing_directory (m : DirectoryModel) (directory : Path) (entries : List EntryData) :
    (m.replaceListing places directory entries).2.directory = directory := by
  unfold DirectoryModel.replaceListing DirectoryModel.installListing
  split
  · rename_i hsame
    exact (sameListing_iff.mp hsame).1
  · rfl

theorem Stable.clearForDirectory (h : m.Stable) (directory : Path) : (m.clearForDirectory places directory).2.Stable := by
  unfold DirectoryModel.clearForDirectory
  split
  · exact h
  · exact stable_markStructureChanged .nil fun e he => absurd he not_mem_nil

end Listing

section Roles

theorem Stable.setSort (h : m.Stable) (sort : SortDescriptor) : (m.setSort sort).2.Stable := by
  grind [DirectoryModel.setSort, h.rearranged, sortModelEntries_perm]

theorem Stable.byId (h : m.Stable) (id : ItemId) : (∃ m', Looked m m' ∧ m.indexOfId id = (none, m')) ∨
      ∃ index m' e, Looked m m' ∧ m.indexOfId id = (some index, m') ∧ m'.entries[index]? = some e ∧ e.id = id := by
  have hlooked := looked_indexOfId m id
  cases hfound : m.indexOfId id with
  | mk index? m' =>
    rw [hfound] at hlooked
    cases index? with
    | none => exact .inl ⟨m', hlooked, rfl⟩
    | some index => grind [h.indexOfId_iff.mp, hlooked.entries]

@[simp] theorem storeRole_id (e : ModelEntry) (role : EntryMetadataRole) : (storeRole e role).id = e.id := rfl

@[simp] theorem storeRole_entry (e : ModelEntry) (role : EntryMetadataRole) : (storeRole e role).entry = e.entry := rfl

@[simp] theorem withRole_id (e : ModelEntry) (role : EntryMetadataRole) : (withRole e role).id = e.id := rfl

@[simp] theorem withRole_entry (e : ModelEntry) (role : EntryMetadataRole) : (withRole e role).entry = e.entry := rfl

section

variable (h : m.Stable)
include h

theorem Stable.reportRole (id : ItemId) (index : Nat) {entries : List ModelEntry}
    (hids : (entries.map (·.id)).Perm (m.entries.map (·.id))) : (m.reportRole id index entries).2.Stable := by
  unfold DirectoryModel.reportRole
  split
  · refine stable_markStructureChanged (hids.nodup_iff.mpr h.ids) fun e he => ?_
    grind +splitImp +splitIndPred [mem_map_of_mem]
  · rename_i hsame
    rw [not_ne_iff] at hsame
    exact ((looked_indexOfId _ id).stable (h.of_ids hsame.symm)).markMetadataChanged

theorem Stable.changeRole (id : ItemId) {index : Nat} {e : ModelEntry}
    (he : m.entries[index]? = some e) (role : EntryMetadataRole) : (m.changeRole id index e role).2.Stable := by
  have hset : (m.entries.set index (withRole e role)).map (·.id) = m.entries.map (·.id) :=
    map_set_same he (withRole_id e role)
  refine h.reportRole id index ?_
  grind [sortModelEntries_perm]

theorem Stable.setMetadataRole (id : ItemId) (path : Path) (role : EntryMetadataRole) :
    ∃ r, m.setMetadataRole id path role = some r ∧ r.2.Stable := by
  unfold DirectoryModel.setMetadataRole
  obtain ⟨m', hlooked, hfound⟩ | ⟨index, m', e, hlooked, hfound, he, -⟩ := h.byId id
  · exact ⟨_, by rw [hfound], hlooked.stable h⟩
  · have hm' := hlooked.stable h
    rw [hfound]
    refine ⟨_, by simp only [he, Option.map_some]; rfl, ?_⟩
    split
    · exact hm'
    · split
      · split
        · exact (hm'.of_ids (map_set_same he (storeRole_id e role))).markMetadataChanged
        · exact hm'
      · exact hm'.changeRole id he role

theorem Stable.setThumbnail (id : ItemId) (same : ModelEntry → Bool) {update : ModelEntry → ModelEntry}
    (hu : ∀ e, (update e).id = e.id) : ∃ r, m.setThumbnail id same update = some r ∧ r.2.Stable := by
  unfold DirectoryModel.setThumbnail
  obtain ⟨m', hlooked, hfound⟩ | ⟨index, m', e, hlooked, hfound, he, -⟩ := h.byId id
  · exact ⟨_, by rw [hfound], hlooked.stable h⟩
  · have hm' := hlooked.stable h
    rw [hfound]
    refine ⟨_, by simp only [he, Option.map_some]; rfl, ?_⟩
    split
    · exact hm'
    · exact (hm'.of_ids (map_set_same he (hu e))).markMetadataChanged

end

end Roles

/-- What a pane can ask of its model: the updates, and the two lookups. -/
inductive Operation where
  | replaceListing (directory : Path) (entries : List EntryData)
  | applyItemsAdded (entries : List EntryData)
  | applyItemsDeleted (paths : List Path)
  | applyItemsRefreshed (pairs : List (RefreshPair Path EntryData))
  | setSort (sort : SortDescriptor)
  | setMetadataRole (id : ItemId) (path : Path) (role : EntryMetadataRole)
  | setThumbnailPath (id : ItemId) (thumbnailPath : Option Path)
  | setThumbnailFailed (id : ItemId) (failed : Bool)
  | clearForDirectory (directory : Path)
  | indexOfPath (path : Path)
  | indexOfId (id : ItemId)

def perform (places : Places) (m : DirectoryModel) : Operation → Option (List DirectoryModelSignal × DirectoryModel)
  | .replaceListing directory entries => some (m.replaceListing places directory entries)
  | .applyItemsAdded entries => m.applyItemsAdded entries
  | .applyItemsDeleted paths => some (m.applyItemsDeleted places paths)
  | .applyItemsRefreshed pairs => m.applyItemsRefreshed places pairs
  | .setSort sort => some (m.setSort sort)
  | .setMetadataRole id path role => m.setMetadataRole id path role
  | .setThumbnailPath id thumbnailPath => m.setThumbnailPath id thumbnailPath
  | .setThumbnailFailed id failed => m.setThumbnailFailed id failed
  | .clearForDirectory directory => some (m.clearForDirectory places directory)
  | .indexOfPath path => some ([], (m.indexOfPath places path).2)
  | .indexOfId id => some ([], (m.indexOfId id).2)

theorem Stable.perform (h : m.Stable) (places : Places) (op : Operation) :
    ∃ r, m.perform places op = some r ∧ r.2.Stable := by
  cases op with
  | replaceListing directory entries => exact ⟨_, rfl, h.replaceListing places directory entries⟩
  | applyItemsAdded entries => exact h.applyItemsAdded entries
  | applyItemsDeleted paths => exact ⟨_, rfl, h.applyItemsDeleted places paths⟩
  | applyItemsRefreshed pairs => exact h.applyItemsRefreshed places pairs
  | setSort sort => exact ⟨_, rfl, h.setSort sort⟩
  | setMetadataRole id path role => exact h.setMetadataRole id path role
  | setThumbnailPath id thumbnailPath => exact h.setThumbnail id _ fun _ => rfl
  | setThumbnailFailed id failed => exact h.setThumbnail id _ fun _ => rfl
  | clearForDirectory directory => exact ⟨_, rfl, h.clearForDirectory directory⟩
  | indexOfPath path => exact ⟨_, rfl, (looked_indexOfPath places m path).stable h⟩
  | indexOfId id => exact ⟨_, rfl, (looked_indexOfId m id).stable h⟩

end DirectoryModel

end TensorDE.Files
