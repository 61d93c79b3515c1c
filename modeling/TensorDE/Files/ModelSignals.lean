import TensorDE.Files.ModelMirror
import TensorDE.Files.ModelRuns

set_option linter.dupNamespace false

namespace TensorDE.Files

open ItemRange Patch Sorting Trace List

namespace DirectoryModel

variable {places : Places} {m m' : DirectoryModel} {shown entries : List ModelEntry} {changed : List Nat}

structure Tracks (shown entries : List ModelEntry) (changed : List Nat) : Prop where
  length : shown.length = entries.length
  inside : ∀ i ∈ changed, i < entries.length
  same : ∀ i, i ∉ changed → shown[i]? = entries[i]?

theorem Tracks.refl (entries : List ModelEntry) : Tracks entries entries [] :=
  ⟨rfl, fun _ hi => absurd hi not_mem_nil, fun _ _ => rfl⟩

theorem Tracks.eq (h : Tracks shown entries []) : shown = entries :=
  ext_getElem? fun i => h.same i not_mem_nil

variable {index : Nat} {old : ModelEntry}

theorem Tracks.set (h : Tracks shown entries changed)
    (hold : entries[index]? = some old) (new : ModelEntry) :
    Tracks shown (entries.set index new) (changed ++ [index]) where
  length := by rw [length_set, h.length]
  inside i hi := by
    grind +splitImp +splitIndPred
  same i hi := by
    grind [h.same]

theorem mirrorAll_rangesFromIndexes (h : Tracks shown entries changed) (roles : ChangedRoles) :
    mirrorAll entries [.itemsChanged (rangesFromIndexes changed) roles] shown = some entries := by
  grind -linarith [mirrorAll_changed, h.length, inside_rangesFromIndexes, h.inside, h.same, covers_rangesFromIndexes]

theorem mirrorAll_one (hold : entries[index]? = some old) (new : ModelEntry) (roles : ChangedRoles) :
    mirrorAll (entries.set index new) [.itemsChanged [⟨index, 1⟩] roles] entries = some (entries.set index new) := by
  grind -linarith [mirrorAll_changed, ItemRange.inside, covers]

section Settle

theorem sorted_of_settled (hids : (m.entries.map (·.id)).Nodup) {changedStructure : Bool}
    (h : ¬(changedStructure ∨ m.entries.map (·.id) ≠ (sortModelEntries m.entries m.sort).map (·.id))) :
    sortModelEntries m.entries m.sort = m.entries := by
  grind [eq_of_perm_of_map_eq, sortModelEntries_perm]

theorem faithful_settleChanged (h : Tracks shown m.entries changed) (hids : (m.entries.map (·.id)).Nodup)
    (changedStructure : Bool) : Faithful shown (m.settleChanged changed changedStructure) := by
  unfold settleChanged
  split
  · exact mirrorAll_reset _ _
  · rename_i hsame
    have hsorted := sorted_of_settled hids hsame
    rw [hsorted]
    exact mirrorAll_rangesFromIndexes h .all

end Settle

section Added

theorem insertSortedModelEntries_inserts {added : List ModelEntry} (ha : added ≠ []) :
    Inserts m.entries added.length ((m.insertSortedModelEntries added).2.entries, (m.insertSortedModelEntries added).1) := by
  unfold insertSortedModelEntries
  rw [if_neg ha]
  split
  · refine ⟨?_, by simp [ItemRange.total], by simp [ItemRange.inside]⟩
    grind [dropFrom_all, covers]
  · have hmerge : Inserts (m.entries.reverse.reverse ++ dropFrom (covers [])
        (m.entries.reverse.length + added.reverse.length) []) (total [] + added.reverse.length)
        (mergeSortedModelEntriesInPlace m.entries added m.sort) :=
      mergeLoop_inserts (by simp) (fun r hr => absurd hr not_mem_nil) (fun r hr => absurd hr not_mem_nil)
        fun p hp => by simp [covers] at hp
    simpa [dropFrom, ItemRange.total] using hmerge

theorem faithful_finishAdded {c : Changes ModelEntry} (h : Tracks m.entries c.model.entries c.changed)
    (hids : (c.model.entries.map (·.id)).Nodup) : Faithful m.entries (finishAdded c) := by
  unfold finishAdded
  split
  · rename_i hadded
    split
    · exact mirrorAll_reset _ _
    · rename_i hchanged
      have hsame : m.entries = c.model.entries := (not_ne_iff.mp hchanged ▸ h).eq
      have hperm := sortModelEntries_perm c.added c.model.sort
      have hne : sortModelEntries c.added c.model.sort ≠ [] := fun hnil => hadded (hnil ▸ hperm).symm.eq_nil
      have hlen := (insertSortedModelEntries_perm c.model (sortModelEntries c.added c.model.sort)).length_eq
      rw [Faithful, hsame]
      exact mirrorAll_inserted (insertSortedModelEntries_inserts hne) (hlen.trans length_append)
  · split
    · exact faithful_settleChanged h hids _
    · rename_i hchanged
      exact congrArg some (not_ne_iff.mp hchanged ▸ h).eq

theorem Tracks.adds {c c' : Changes ModelEntry} {entry : EntryData} (h : Tracks shown c.model.entries c.changed)
    (ha : Adds c entry c') : Tracks shown c'.model.entries c'.changed := by
  grind +splitImp +splitIndPred [h.set]

theorem Stable.faithful_applyItemsAdded (h : m.Stable) (entries : List EntryData) :
    ∃ r, m.applyItemsAdded entries = some r ∧ Faithful m.entries r := by
  unfold DirectoryModel.applyItemsAdded
  split
  · exact ⟨_, rfl, rfl⟩
  · obtain ⟨c, hc, hg, htracks⟩ := addItems (P := fun c _ => Tracks m.entries c.model.entries c.changed) entries
      (grows_start h) (.refl m.entries) fun _ _ _ _ _ hp ha => hp.adds ha
    exact ⟨_, by rw [hc]; rfl, faithful_finishAdded htracks hg.stable.ids⟩

end Added

section Deleted

/-- A deletion does not read from the entries, so the shown ones may be behind. -/
theorem Stable.mirrorAll_applyItemsDeleted (h : m.Stable) (places : Places) (paths : List Path)
    (hlen : shown.length = m.entries.length) (entries : List ModelEntry) :
    ∃ out, mirrorAll entries (m.applyItemsDeleted places paths).1 shown = some out ∧
      out.length = (m.applyItemsDeleted places paths).2.entries.length ∧
      (shown = m.entries → out = (m.applyItemsDeleted places paths).2.entries) := by
  obtain ⟨indexes, m', hlooked, hindexes, ⟨-, he⟩ | ⟨-, he⟩⟩ := applyItemsDeleted_cases places m paths
  · rw [he]
    exact ⟨shown, rfl, by rw [hlen, hlooked.entries], fun heq => heq.trans hlooked.entries.symm⟩
  · have hlt : ∀ i ∈ indexes, i < shown.length := fun i hi => hlen ▸ h.indexesOfPaths_lt paths i (hindexes ▸ hi)
    rw [he]
    refine ⟨_, mirrorAll_removed hlt, ?_, fun heq => by rw [heq]; rfl⟩
    have hdrop : ∀ xs, removeIndexes xs indexes = dropFrom (fun p => decide (p ∈ indexes)) 0 xs := fun xs => by
      rw [dropFrom_zipIdx, removeIndexes]
      simp only [decide_not]
    rw [hdrop]
    exact (length_dropFrom_congr hlen).trans (congrArg List.length (hdrop m.entries).symm)

theorem Stable.faithful_applyItemsDeleted (h : m.Stable) (paths : List Path) :
    Faithful m.entries (m.applyItemsDeleted places paths) := by
  obtain ⟨out, hout, -, hsame⟩ := h.mirrorAll_applyItemsDeleted places paths rfl
    (m.applyItemsDeleted places paths).2.entries
  rw [Faithful, hout, hsame rfl]

end Deleted

section Refreshed

variable {c c' : Changes EntryData} {pair : RefreshPair Path EntryData}

theorem Tracks.refreshes (h : Tracks shown c.model.entries c.changed) (hr : Refreshes places c pair c') :
    Tracks shown c'.model.entries c'.changed := by
  grind +splitImp +splitIndPred [h.set]

theorem settleChanged_length (m : DirectoryModel) (changed : List Nat) (changedStructure : Bool) :
    (m.settleChanged changed changedStructure).2.entries.length = m.entries.length := by
  unfold settleChanged
  split <;> exact (sortModelEntries_perm m.entries m.sort).length_eq

/-- All entries are read again at the end of the refresh: a replaced item got another name or became another kind, or
the items replaced, left and added are not in order. -/
def Changes.Resets (places : Places) (c : Changes EntryData) : Prop :=
  c.changedStructure ∨ ∀ added, (c.model.applyItemsDeleted places c.removed).2.applyItemsAdded c.added = some added →
    added.2.entries.map (·.id) ≠ (sortModelEntries added.2.entries added.2.sort).map (·.id)

/-- The refresh neither removes nor adds an item. -/
def Changes.StaysInPlace (places : Places) (c : Changes EntryData) : Prop :=
  c.added = [] ∧ (c.model.indexesOfPaths places c.removed).1 = []

/-- The end of a refresh. The positions of the replaced items are right if nothing moved in between, and do not matter
if all is read again. -/
theorem faithful_finishRefreshed (hs : c.model.Stable) (h : Tracks shown c.model.entries c.changed)
    (hc : c.changed = [] ∨ c.Resets places ∨ c.StaysInPlace places) :
    ∃ r, finishRefreshed places c = some r ∧ Faithful shown r := by
  have hdeleted := hs.applyItemsDeleted places c.removed
  obtain ⟨added, ha, hfaithful⟩ := hdeleted.faithful_applyItemsAdded c.added
  refine ⟨_, by rw [finishRefreshed, ha, Option.map_some], ?_⟩
  unfold Changes.settle
  split
  · rename_i hchanged
    obtain hresets | ⟨hnone, hremoved⟩ := hc.resolve_left hchanged
    · have hreset : c.changedStructure ∨ added.2.entries.map (·.id) ≠
          (sortModelEntries added.2.entries added.2.sort).map (·.id) := hresets.imp_right fun h => h added ha
      obtain ⟨out, hout, hlen, -⟩ := hs.mirrorAll_applyItemsDeleted places c.removed h.length
        (added.2.settleChanged c.changed c.changedStructure).2.entries
      obtain ⟨out', hout'⟩ := mirrorAll_length hfaithful (settleChanged_length added.2 c.changed c.changedStructure).symm
        hlen.symm
      grind [Faithful, mirrorAll_append, settleChanged, mirrorAll_reset]
    · obtain ⟨indexes, m', hlooked, hindexes, ⟨-, he⟩ | ⟨hfound, -⟩⟩ := applyItemsDeleted_cases places c.model c.removed
      · rw [he, hnone] at ha
        obtain rfl := Option.some.inj ha
        grind [hlooked.entries, hs.ids, faithful_settleChanged]
      · exact absurd (hindexes.trans hremoved) hfound
  · rename_i hchanged
    obtain rfl := (not_ne_iff.mp hchanged ▸ h).eq
    obtain ⟨out, hout, -, hsame⟩ := hs.mirrorAll_applyItemsDeleted places c.removed rfl added.2.entries
    grind [Faithful, mirrorAll_append]

end Refreshed

section Listing

theorem covers_rangeAll {len i : Nat} (h : covers (rangeAll len) i = false) : len ≤ i := by
  grind [rangeAll, covers]

theorem inside_rangeAll (len : Nat) : inside len (rangeAll len) := by
  unfold rangeAll
  split <;> simp [ItemRange.inside]

theorem faithful_installListing (directory : Path) (entries : List ModelEntry) :
    Faithful m.entries (m.installListing places directory entries) := by
  unfold installListing
  split
  · rename_i hsame
    have hlen := congrArg List.length (sameListing_iff.mp hsame).2
    simp only [length_map] at hlen
    have hzip : (List.zipWith keepIdentity m.entries entries).length = m.entries.length := by simp [hlen]
    refine mirrorAll_changed .metadataOnly hzip.symm (hzip.symm ▸ inside_rangeAll _) fun i hi => ?_
    have hbeyond := covers_rangeAll hi
    rw [getElem?_eq_none hbeyond, getElem?_eq_none]
    exact hzip.le.trans hbeyond
  · exact mirrorAll_reset _ _

theorem Stable.faithful_replaceListing (h : m.Stable) (directory : Path) (entries : List EntryData) :
    Faithful m.entries (m.replaceListing places directory entries) := by
  have hentries : (m.assignListingIdentity directory (entries.map ModelEntry.fromEntry)).2.entries = m.entries := by
    rw [(h.assignListingIdentity directory entries).model]
  rw [← hentries]
  exact faithful_installListing directory _

end Listing

section Roles

theorem Stable.faithful_changeRole (h : m.Stable) {id : ItemId} {index : Nat} {e : ModelEntry}
    (he : m.entries[index]? = some e) (hid : e.id = id) (role : EntryMetadataRole) :
    Faithful m.entries (m.changeRole id index e role) := by
  have hset : (m.entries.set index (withRole e role)).map (·.id) = m.entries.map (·.id) :=
    map_set_same he (withRole_id e role)
  -- The entries are those with the role set, in whatever order.
  have hreport : ∀ entries : List ModelEntry, entries.Perm (m.entries.set index (withRole e role)) →
      Faithful m.entries (m.reportRole id index entries) := by
    intro entries hperm
    unfold DirectoryModel.reportRole
    split
    · exact mirrorAll_reset _ _
    · rename_i hstayed
      rw [not_ne_iff] at hstayed
      obtain rfl : entries = m.entries.set index (withRole e role) :=
        eq_of_perm_of_map_eq hperm (hstayed ▸ h.ids) (hstayed.symm.trans hset.symm)
      have hlt := (List.getElem?_eq_some_iff.mp he).1
      have hfound : (indexOfId { m with entries := m.entries.set index (withRole e role) } id).1 = some index :=
        (h.of_ids hset).indexOfId_iff.mpr ⟨withRole e role, getElem?_set_self hlt, hid⟩
      have hentries : (indexOfId { m with entries := m.entries.set index (withRole e role) } id).2.markMetadataChanged.entries =
          m.entries.set index (withRole e role) := (looked_indexOfId _ id).entries
      grind [Faithful, mirrorAll_one]
  grind [DirectoryModel.changeRole, sortModelEntries_perm]

def StoresNothing (m : DirectoryModel) (id : ItemId) (path : Path) (role : EntryMetadataRole) : Prop :=
  ∀ e ∈ m.entries, e.id = id → m.pathForEntry e = path → e.effectiveMetadataRole = role →
    e.metadataRefreshPending = false ∧ e.metadataRole = e.normalizedRole role

theorem Looked.pathForEntry (h : Looked m m') (e : ModelEntry) : m'.pathForEntry e = m.pathForEntry e := by
  grind [DirectoryModel.pathForEntry, h.directory]

theorem Stable.faithful_setMetadataRole (h : m.Stable) (id : ItemId) (path : Path) (role : EntryMetadataRole) :
    ∃ r, m.setMetadataRole id path role = some r ∧ (Faithful m.entries r ↔ StoresNothing m id path role) := by
  unfold DirectoryModel.setMetadataRole
  obtain ⟨m', hlooked, hfound⟩ | ⟨index, m', e, hlooked, hfound, he, hid⟩ := h.byId id
  · refine ⟨([], m'), by rw [hfound], iff_of_true (congrArg some hlooked.entries.symm) fun e he hid => ?_⟩
    obtain ⟨i, hi⟩ := mem_iff_getElem?.mp he
    have hsome := h.indexOfId_iff.mpr ⟨e, hi, hid⟩
    rw [hfound] at hsome
    cases hsome
  · have hm' := hlooked.stable h
    have honly : ∀ o ∈ m.entries, o.id = id → o = e := fun o ho hoid =>
      inj_on_of_nodup_map h.ids ho (hlooked.entries ▸ mem_of_getElem? he) (hoid.trans hid.symm)
    have hmem : e ∈ m.entries := hlooked.entries ▸ mem_of_getElem? he
    rw [hfound]
    refine ⟨_, by simp only [he, Option.map_some]; rfl, ?_⟩
    rw [← hlooked.entries]
    split
    · refine iff_of_true rfl fun o ho hoid hopath => ?_
      grind [hlooked.pathForEntry]
    · rename_i hpath
      split
      · rename_i hrole
        split
        · rename_i hstored
          refine iff_of_false (fun hf => ?_) fun hnothing => ?_
          · have hkept : m'.entries = m'.entries.set index (storeRole e role) := Option.some.inj hf
            grind [storeRole]
          · have hsame := hnothing e hmem hid ((hlooked.pathForEntry e).symm.trans (not_ne_iff.mp hpath)) hrole
            simp [hsame.1, hsame.2.symm] at hstored
        · refine iff_of_true rfl fun o ho hoid _ _ => ?_
          grind
      · refine iff_of_true (hm'.faithful_changeRole he hid role) fun o ho hoid _ horole => ?_
        grind

theorem Stable.faithful_setThumbnail (h : m.Stable) (id : ItemId) (same : ModelEntry → Bool)
    (update : ModelEntry → ModelEntry) : ∃ r, m.setThumbnail id same update = some r ∧ Faithful m.entries r := by
  unfold DirectoryModel.setThumbnail
  obtain ⟨m', hlooked, hfound⟩ | ⟨index, m', e, hlooked, hfound, he, -⟩ := h.byId id
  · exact ⟨([], m'), by rw [hfound], congrArg some hlooked.entries.symm⟩
  · rw [hfound]
    refine ⟨_, by simp only [he, Option.map_some]; rfl, ?_⟩
    rw [← hlooked.entries]
    split
    · rfl
    · exact mirrorAll_one he (update e) .metadataOnly

end Roles

/-- When the signals of an operation are enough: a refresh that has replaced items in place reads all again at its end,
or leaves every item where it is; and a role that is in effect already is stored the way it is. -/
def Operation.Undisturbed (places : Places) (m : DirectoryModel) : Operation → Prop
  | .applyItemsRefreshed pairs => ∀ c, pairs.foldlM (refreshItem places) (.start m) = some c →
    c.changed = [] ∨ c.Resets places ∨ c.StaysInPlace places
  | .setMetadataRole id path role => StoresNothing m id path role
  | _ => True

theorem Stable.faithful_applyItemsRefreshed (h : m.Stable) {pairs : List (RefreshPair Path EntryData)}
    (hc : (Operation.applyItemsRefreshed pairs).Undisturbed places m) :
    ∃ r, m.applyItemsRefreshed places pairs = some r ∧ Faithful m.entries r := by
  unfold DirectoryModel.applyItemsRefreshed
  split
  · exact ⟨_, rfl, rfl⟩
  · obtain ⟨c, hcollect, hf, htracks⟩ := refreshItems (P := fun c _ => Tracks m.entries c.model.entries c.changed) places
      pairs (follows_start h) (.refl m.entries) fun _ _ _ _ _ hp hr => hp.refreshes hr
    obtain ⟨r, hr, hfaithful⟩ := faithful_finishRefreshed hf.stable htracks (hc c hcollect)
    grind

theorem Stable.faithful_perform (h : m.Stable) {op : Operation} (hc : op.Undisturbed places m) :
    ∃ r, m.perform places op = some r ∧ Faithful m.entries r := by
  cases op with
  | replaceListing directory entries => exact ⟨_, rfl, h.faithful_replaceListing directory entries⟩
  | applyItemsAdded entries => exact h.faithful_applyItemsAdded entries
  | applyItemsDeleted paths => exact ⟨_, rfl, h.faithful_applyItemsDeleted paths⟩
  | applyItemsRefreshed pairs => exact h.faithful_applyItemsRefreshed hc
  | setSort sort =>
    refine ⟨_, rfl, ?_⟩
    unfold DirectoryModel.setSort
    split <;> rfl
  | setMetadataRole id path role =>
    obtain ⟨r, hr, hiff⟩ := h.faithful_setMetadataRole id path role
    exact ⟨r, hr, hiff.mpr hc⟩
  | setThumbnailPath id thumbnailPath => exact h.faithful_setThumbnail id _ _
  | setThumbnailFailed id failed => exact h.faithful_setThumbnail id _ _
  | clearForDirectory directory =>
    refine ⟨_, rfl, ?_⟩
    unfold DirectoryModel.clearForDirectory
    split <;> rfl
  | indexOfPath path => exact ⟨_, rfl, congrArg some (looked_indexOfPath places m path).entries.symm⟩
  | indexOfId id => exact ⟨_, rfl, congrArg some (looked_indexOfId m id).entries.symm⟩

/-- The states that operations lead to, whatever they are. -/
def Reached (places : Places) (m : DirectoryModel) : Prop :=
  ∃ directory ops, Run (fun m op m' => ∃ signals, m.perform places op = some (signals, m'))
    (forDirectory places directory) ops m

theorem Reached.stable (h : Reached places m) : m.Stable := by
  obtain ⟨directory, ops, hrun⟩ := h
  refine hrun.invariant (Q := fun _ => True) (fun s op t hs _ hstep => ?_) (stable_forDirectory directory)
    fun _ _ => trivial
  obtain ⟨r, hr, hstable⟩ := hs.perform places op
  grind

section Sample

/-- Two files, of which one is gone while the other one grew. -/
def twoFiles : DirectoryModel := ((forDirectory plain folder).replaceListing plain folder [file 'a' 1, file 'b' 1]).2

theorem reached_twoFiles : Reached plain twoFiles :=
  ⟨folder, [.replaceListing folder [file 'a' 1, file 'b' 1]], .cons ⟨_, rfl⟩ (.nil _)⟩

def goneAndGrown : Operation :=
  .applyItemsRefreshed [⟨pathOf 'a', none⟩, ⟨pathOf 'b', some (file 'b' 2)⟩]

def bothGrown : Operation :=
  .applyItemsRefreshed [⟨pathOf 'a', some (file 'a' 2)⟩,
    ⟨pathOf 'b', some (file 'b' 2)⟩]

end Sample

end DirectoryModel

end TensorDE.Files
