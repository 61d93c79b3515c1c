import TensorDE.Files.ModelStable

namespace TensorDE.Files

open IndexCache Sorting Patch

namespace DirectoryModel

variable {places : Places} {m m' : DirectoryModel}

theorem traced_markStructureChanged (m : DirectoryModel) : m.markStructureChanged.Traced := agreesLoosely_reset _ _ _

theorem Traced.of_names (h : m.Traced) {entries : List ModelEntry} (he : entries.map (·.name) = m.entries.map (·.name)) :
    ({ m with entries } : DirectoryModel).Traced := by
  have hkeys : ({ m with entries } : DirectoryModel).nameKeys = m.nameKeys := by
    simpa [nameKeys, Function.comp_def] using congrArg (List.map some) he
  unfold Traced
  rw [hkeys]
  exact h

variable {name : Utf8.Str}

theorem Traced.found (h : m.Traced) {i : Nat} (hi : (m.indexOfName name).1 = some i) :
    ∃ e, m.entries[i]? = some e ∧ e.name = name :=
  at_map_some.mp ((AgreesLoosely.lookup h name).1 i hi)

theorem Traced.missed (h : m.Traced) (hi : (m.indexOfName name).1 = none) : name ∉ m.entries.map (·.name) := by
  intro hmem
  obtain ⟨e, he, hname⟩ := List.mem_map.mp hmem
  obtain ⟨i, hget⟩ := List.mem_iff_getElem?.mp he
  exact (AgreesLoosely.lookup h name).2.1 hi i (at_map_some.mpr ⟨e, hget, hname⟩)

theorem traced_forDirectory (directory : Path) : (forDirectory places directory).Traced := fun _ => right_nothing _ _

theorem traced_settleChanged (h : m.Traced) (hids : (m.entries.map (·.id)).Nodup) (changed : List Nat)
    (changedStructure : Bool) : (m.settleChanged changed changedStructure).2.Traced := by
  unfold settleChanged
  split
  · exact traced_markStructureChanged _
  · rename_i hsame
    rw [not_or, not_ne_iff] at hsame
    have hsorted := eq_of_perm_of_map_eq (sortModelEntries_perm m.entries m.sort).symm hids hsame.2
    exact h.of_names (congrArg _ hsorted.symm)

section Added

variable {c c' : Changes ModelEntry} {entry : EntryData}

theorem Traced.adds (h : c.model.Traced) (ha : Adds c entry c') : c'.model.Traced := by
  cases ha with
  | @replaces index old m' hlooked hindex hold =>
    obtain ⟨e, he, hname⟩ := h.found hindex
    refine (hlooked.traced h).of_names ?_
    grind [hlooked.entries, map_set_same, refreshedEntry_name]
  | joins hlooked _ => exact hlooked.traced h

theorem traced_finishAdded (h : c.model.Traced) (hids : (c.model.entries.map (·.id)).Nodup) :
    (finishAdded c).2.Traced := by
  grind [finishAdded, traced_markStructureChanged, traced_settleChanged]

theorem Traced.applyItemsAdded (h : m.Traced) (hs : m.Stable) {entries : List EntryData}
    {r : List DirectoryModelSignal × DirectoryModel} (hr : m.applyItemsAdded entries = some r) : r.2.Traced := by
  unfold DirectoryModel.applyItemsAdded at hr
  split at hr
  · obtain rfl := Option.some.inj hr
    exact h
  · obtain ⟨c, hc, hg, htraced⟩ := addItems (P := fun c _ => c.model.Traced) entries (grows_start hs) h
      fun _ _ _ _ _ hp ha => hp.adds ha
    grind [traced_finishAdded, hg.stable.ids]

end Added

theorem Traced.applyItemsDeleted (h : m.Traced) (places : Places) (paths : List Path) :
    (m.applyItemsDeleted places paths).2.Traced := by
  obtain ⟨indexes, m', hlooked, -, ⟨-, he⟩ | ⟨-, he⟩⟩ := applyItemsDeleted_cases places m paths
  · rw [he]
    exact hlooked.traced h
  · rw [he]
    exact traced_markStructureChanged _

section Refreshed

variable {c c' : Changes EntryData} {pair : RefreshPair Path EntryData}

/-- While no item gets another name the index stays right; once one does, it will be started anew. -/
structure KeepsTrace (c : Changes EntryData) : Prop where
  traced : c.changedStructure = false → c.model.Traced
  changed : c.changed = [] → c.changedStructure = false

theorem KeepsTrace.refreshes (h : KeepsTrace c) (hr : Refreshes places c pair c') : KeepsTrace c' := by
  cases hr with
  | removes => exact ⟨h.traced, h.changed⟩
  | @replaces entry index old m' _ hlooked _ hold =>
    refine ⟨fun hkept => ?_, fun hnone => absurd hnone (by simp)⟩
    simp only [Bool.or_eq_false_iff, decide_eq_false_iff_not, not_or, not_ne_iff] at hkept
    refine (hlooked.traced (h.traced hkept.1)).of_names ?_
    rw [hlooked.entries]
    exact map_set_same hold hkept.2.1.symm
  | misses _ hlooked _ => exact ⟨fun hkept => hlooked.traced (h.traced hkept), h.changed⟩

variable {r : List DirectoryModelSignal × DirectoryModel}

theorem traced_finishRefreshed (hs : c.model.Stable) (h : KeepsTrace c) (hr : finishRefreshed places c = some r) : r.2.Traced := by
  have hdeleted := hs.applyItemsDeleted places c.removed
  obtain ⟨added, ha, hadded⟩ := hdeleted.applyItemsAdded c.added
  rw [finishRefreshed, ha, Option.map_some] at hr
  have htraced : c.changedStructure = false → added.2.Traced := fun hkept =>
    ((h.traced hkept).applyItemsDeleted places c.removed).applyItemsAdded hdeleted ha
  grind -linarith [Changes.settle, traced_settleChanged, hadded.ids, settleChanged, traced_markStructureChanged, h.changed]

theorem Traced.applyItemsRefreshed (h : m.Traced) (hs : m.Stable) {pairs : List (RefreshPair Path EntryData)} (hr : m.applyItemsRefreshed places pairs = some r) :
    r.2.Traced := by
  unfold DirectoryModel.applyItemsRefreshed at hr
  split at hr
  · obtain rfl := Option.some.inj hr
    exact h
  · obtain ⟨c, hc, hf, hkeeps⟩ := refreshItems (P := fun c _ => KeepsTrace c) places pairs (follows_start hs)
      ⟨fun _ => h, fun _ => rfl⟩ fun _ _ _ _ _ hp hr => hp.refreshes hr
    grind [traced_finishRefreshed, hf.stable]

end Refreshed

section Listing

theorem Traced.installListing (h : m.Traced) (directory : Path) (entries : List ModelEntry) :
    (m.installListing places directory entries).2.Traced := by
  unfold DirectoryModel.installListing
  split
  · rename_i hsame
    have hlen := congrArg List.length (sameListing_iff.mp hsame).2
    simp only [List.length_map] at hlen
    exact h.of_names (map_zipWith_left keepIdentity_name hlen)
  · exact traced_markStructureChanged _

theorem Traced.replaceListing (h : m.Traced) (hs : m.Stable) (places : Places) (directory : Path)
    (entries : List EntryData) : (m.replaceListing places directory entries).2.Traced := by
  refine Traced.installListing ?_ directory _
  rw [(hs.assignListingIdentity directory entries).model]
  exact h

theorem Traced.clearForDirectory (h : m.Traced) (directory : Path) :
    (m.clearForDirectory places directory).2.Traced := by
  unfold DirectoryModel.clearForDirectory
  split
  · exact h
  · exact traced_markStructureChanged _

end Listing

section Roles

theorem Traced.reportRole (h : m.Traced) (id : ItemId) (index : Nat) {entries : List ModelEntry}
    (hnames : entries.map (·.id) = m.entries.map (·.id) → entries.map (·.name) = m.entries.map (·.name)) :
    (m.reportRole id index entries).2.Traced := by
  unfold DirectoryModel.reportRole
  split
  · exact traced_markStructureChanged _
  · rename_i hsame
    exact (looked_indexOfId _ id).traced (h.of_names (hnames (not_ne_iff.mp hsame).symm))

theorem Traced.changeRole (h : m.Traced) (hs : m.Stable) (id : ItemId) {index : Nat} {e : ModelEntry}
    (he : m.entries[index]? = some e) (role : EntryMetadataRole) : (m.changeRole id index e role).2.Traced := by
  have hids : (m.entries.set index (withRole e role)).map (·.id) = m.entries.map (·.id) :=
    map_set_same he (withRole_id e role)
  have hnames : (m.entries.set index (withRole e role)).map (·.name) = m.entries.map (·.name) := map_set_same he rfl
  refine h.reportRole id index fun hsame => ?_
  grind [sortModelEntries_perm, eq_of_perm_of_map_eq, hs.ids]

variable {id : ItemId} {r : List DirectoryModelSignal × DirectoryModel}

theorem Traced.setMetadataRole (h : m.Traced) (hs : m.Stable) {path : Path} {role : EntryMetadataRole} (hr : m.setMetadataRole id path role = some r) : r.2.Traced := by
  unfold DirectoryModel.setMetadataRole at hr
  obtain ⟨m', hlooked, hfound⟩ | ⟨index, m', e, hlooked, hfound, he, -⟩ := hs.byId id
  · grind [hlooked.traced]
  · rw [hfound] at hr
    simp only [he, Option.map_some, Option.some.injEq] at hr
    obtain rfl := hr
    have hm' := hlooked.traced h
    split
    · exact hm'
    · split
      · split
        · exact hm'.of_names (map_set_same he rfl)
        · exact hm'
      · exact hm'.changeRole (hlooked.stable hs) id he role

theorem Traced.setThumbnail (h : m.Traced) (hs : m.Stable) {same : ModelEntry → Bool} {update : ModelEntry → ModelEntry}
    (hr : m.setThumbnail id same update = some r) (hu : ∀ e, (update e).name = e.name) : r.2.Traced := by
  unfold DirectoryModel.setThumbnail at hr
  obtain ⟨m', hlooked, hfound⟩ | ⟨index, m', e, hlooked, hfound, he, -⟩ := hs.byId id
  · grind [hlooked.traced]
  · rw [hfound] at hr
    simp only [he, Option.map_some, Option.some.injEq] at hr
    obtain rfl := hr
    split
    · exact hlooked.traced h
    · exact (hlooked.traced h).of_names (map_set_same he (hu e))

end Roles

/-- Whatever is done, a lookup by name finds an entry of that name where there is one. -/
theorem Traced.perform (h : m.Traced) (hs : m.Stable) {op : Operation}
    {r : List DirectoryModelSignal × DirectoryModel} (hr : m.perform places op = some r) : r.2.Traced := by
  cases op with
  | replaceListing directory entries =>
    obtain rfl := Option.some.inj hr
    grind [h.replaceListing]
  | applyItemsAdded entries => exact h.applyItemsAdded hs hr
  | applyItemsDeleted paths =>
    obtain rfl := Option.some.inj hr
    exact h.applyItemsDeleted places paths
  | applyItemsRefreshed pairs => exact h.applyItemsRefreshed hs hr
  | setSort sort =>
    obtain rfl := Option.some.inj hr
    grind [DirectoryModel.setSort, traced_markStructureChanged]
  | setMetadataRole id path role => exact h.setMetadataRole hs hr
  | setThumbnailPath id thumbnailPath => exact h.setThumbnail hs hr fun _ => rfl
  | setThumbnailFailed id failed => exact h.setThumbnail hs hr fun _ => rfl
  | clearForDirectory directory =>
    obtain rfl := Option.some.inj hr
    exact h.clearForDirectory directory
  | indexOfPath path =>
    obtain rfl := Option.some.inj hr
    exact (looked_indexOfPath places m path).traced h
  | indexOfId id =>
    obtain rfl := Option.some.inj hr
    exact (looked_indexOfId m id).traced h

end DirectoryModel

end TensorDE.Files
