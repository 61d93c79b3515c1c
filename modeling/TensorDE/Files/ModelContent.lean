import TensorDE.Files.ModelTraced

namespace TensorDE.Files

open Sorting ModelEntry List

/-- The data of an entry without the width of its name, which is only kept to lay it out. -/
def EntryData.unmeasured (entry : EntryData) : EntryData := { entry with nameWidthUnits := 0 }

namespace DirectoryModel

variable {places : Places} {m m' : DirectoryModel}

def content (m : DirectoryModel) : List EntryData := m.entries.map fun e => e.entry.unmeasured

theorem content_names (m : DirectoryModel) : m.entries.map (·.name) = m.content.map (·.name) := by
  rw [content, map_map]
  rfl

theorem names_new {batches : List (List EntryData)} {entries : List EntryData}
    (hd : ((batches ++ [entries]).flatten.map (·.name)).Nodup)
    (hc : m.content.Perm (batches.flatten.map EntryData.unmeasured)) :
    ∀ entry ∈ entries, entry.name ∉ m.entries.map (·.name) := by
  intro entry he hmem
  rw [content_names, (hc.map _).mem_iff, map_map] at hmem
  rw [flatten_append, map_append, flatten_singleton] at hd
  obtain ⟨o, ho, hname⟩ := mem_map.mp hmem
  have hdisjoint := (nodup_append.mp hd).2.2 o.name (mem_map_of_mem ho) entry.name (mem_map_of_mem he)
  exact hdisjoint hname

section Listing

theorem keepIdentity_unmeasured {old new : ModelEntry} (hname : old.name = new.name) :
    (keepIdentity old new).entry.unmeasured = new.entry.unmeasured := by
  simp only [keepIdentity, preserveRefreshedEntryRoles_entry, hname]
  rfl

theorem installListing_content (directory : Path) (entries : List ModelEntry) :
    (m.installListing places directory entries).2.content = entries.map fun e => e.entry.unmeasured := by
  unfold installListing
  split
  · rename_i hsame
    have hnames : m.entries.map (·.name) = entries.map (·.name) := by
      simpa [Function.comp_def] using congrArg (List.map Prod.fst) (sameListing_iff.mp hsame).2
    have hpairs := forall₂_of_map_eq hnames
    clear hsame hnames
    change (List.zipWith keepIdentity m.entries entries).map _ = _
    generalize m.entries = olds at hpairs
    induction hpairs with
    | nil => rfl
    | cons hname _ ih => rw [zipWith_cons_cons, map_cons, map_cons, ih, keepIdentity_unmeasured hname]
  · rfl

theorem Stable.replaceListing_content (h : m.Stable) (directory : Path) (entries : List EntryData) :
    (m.replaceListing places directory entries).2.content.Perm (entries.map EntryData.unmeasured) := by
  rw [DirectoryModel.replaceListing, installListing_content]
  have hdata := (h.assignListingIdentity directory entries).data.map EntryData.unmeasured
  rw [map_map] at hdata
  exact ((sortModelEntries_perm _ _).map _).trans hdata

theorem clearForDirectory_content (places : Places) (m : DirectoryModel) (directory : Path) :
    (m.clearForDirectory places directory).2.directory = directory ∧
      (m.clearForDirectory places directory).2.content = [] := by
  unfold clearForDirectory
  split
  · grind [content]
  · exact ⟨rfl, rfl⟩

end Listing

section Added

variable {c c' : Changes ModelEntry}

/-- The loop over items whose names are new. -/
structure Joins (m : DirectoryModel) (all : List EntryData) (c : Changes ModelEntry) (rest : List EntryData) : Prop where
  traced : c.model.Traced
  entries : c.model.entries = m.entries
  changed : c.changed = []
  added : c.added.map (·.entry) ++ rest = all

theorem Joins.step {all rest : List EntryData} {entry : EntryData} (h : Joins m all c (entry :: rest))
    (hnew : ∀ entry ∈ all, entry.name ∉ m.entries.map (·.name)) (ha : Adds c entry c') : Joins m all c' rest := by
  cases ha with
  | @replaces index old m' hlooked hindex hold => grind [h.traced.found, h.added, h.entries]
  | joins hlooked _ =>
    refine ⟨hlooked.traced h.traced, hlooked.entries.trans h.entries, h.changed, ?_⟩
    grind [h.added, fromEntry]

theorem Joins.finishAdded {all : List EntryData} (h : Joins m all c []) :
    ((finishAdded c).2.entries.map (·.entry)).Perm (m.entries.map (·.entry) ++ all) := by
  have hadded := h.added
  unfold DirectoryModel.finishAdded
  grind [h.changed, insertSortedModelEntries_perm, sortModelEntries_perm, h.entries, markStructureChanged]

theorem Stable.applyItemsAdded_content (hs : m.Stable) (ht : m.Traced) {entries : List EntryData}
    (hnew : ∀ entry ∈ entries, entry.name ∉ m.entries.map (·.name)) {r : List DirectoryModelSignal × DirectoryModel}
    (hr : m.applyItemsAdded entries = some r) : r.2.content.Perm (m.content ++ entries.map EntryData.unmeasured) := by
  unfold DirectoryModel.applyItemsAdded at hr
  split at hr
  · grind
  · obtain ⟨c, hc, -, hjoins⟩ := addItems (P := Joins m entries) entries (grows_start hs) ⟨ht, rfl, rfl, rfl⟩
      fun _ _ _ _ _ hp ha => hp.step hnew ha
    rw [hc] at hr
    obtain rfl := Option.some.inj hr
    have hdata := hjoins.finishAdded.map EntryData.unmeasured
    rw [map_append, map_map, map_map] at hdata
    exact hdata

end Added

section Place

def place (m : DirectoryModel) : Path × Bool := (m.directory, m.isNetwork)

theorem place_directory (h : m'.place = m.place) : m'.directory = m.directory := congrArg Prod.fst h

theorem place_isNetwork (h : m'.place = m.place) : m'.isNetwork = m.isNetwork := congrArg Prod.snd h

theorem Looked.place (h : Looked m m') : m'.place = m.place := Prod.ext h.directory h.isNetwork

theorem settleChanged_place (m : DirectoryModel) (changed : List Nat) (changedStructure : Bool) :
    (m.settleChanged changed changedStructure).2.place = m.place := by
  unfold settleChanged
  split <;> rfl

theorem finishAdded_place (c : Changes ModelEntry) : (finishAdded c).2.place = c.model.place := by
  unfold finishAdded
  split
  · split
    · rfl
    · rw [insertSortedModelEntries_frame]
      rfl
  grind [settleChanged_place]

variable {r : List DirectoryModelSignal × DirectoryModel}

theorem Stable.applyItemsAdded_place (h : m.Stable) {entries : List EntryData} (hr : m.applyItemsAdded entries = some r) :
    r.2.place = m.place := by
  unfold DirectoryModel.applyItemsAdded at hr
  split at hr
  · obtain rfl := Option.some.inj hr
    rfl
  · obtain ⟨c, hc, hg, -⟩ := addItems (P := fun _ _ => True) entries (grows_start h) trivial fun _ _ _ _ _ _ _ => trivial
    rw [hc] at hr
    obtain rfl := Option.some.inj hr
    exact (finishAdded_place c).trans (Prod.ext hg.place.1 hg.place.2.1)

theorem applyItemsDeleted_place (places : Places) (m : DirectoryModel) (paths : List Path) :
    (m.applyItemsDeleted places paths).2.place = m.place := by
  obtain ⟨indexes, m', hlooked, -, ⟨-, he⟩ | ⟨-, he⟩⟩ := applyItemsDeleted_cases places m paths
  · rw [he]
    exact hlooked.place
  · rw [he]
    exact hlooked.place

theorem Stable.applyItemsRefreshed_place (h : m.Stable) {pairs : List (RefreshPair Path EntryData)} (hr : m.applyItemsRefreshed places pairs = some r) :
    r.2.place = m.place := by
  unfold DirectoryModel.applyItemsRefreshed at hr
  split at hr
  · obtain rfl := Option.some.inj hr
    rfl
  · obtain ⟨c, hc, hf, -⟩ := refreshItems (P := fun _ _ => True) places pairs (follows_start h) trivial
      fun _ _ _ _ _ _ _ => trivial
    rw [hc, Option.bind_some, finishRefreshed] at hr
    obtain ⟨added, ha, rfl⟩ := Option.map_eq_some_iff.mp hr
    have hplace : added.2.place = m.place :=
      ((hf.stable.applyItemsDeleted places c.removed).applyItemsAdded_place ha).trans
        ((applyItemsDeleted_place places c.model c.removed).trans (Prod.ext hf.place.1 hf.place.2.1))
    grind [Changes.settle, settleChanged_place]

end Place

end DirectoryModel

end TensorDE.Files
