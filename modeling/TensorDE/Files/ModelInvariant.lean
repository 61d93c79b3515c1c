import TensorDE.Files.ModelListing
import Mathlib.Logic.Relation

set_option linter.dupNamespace false

namespace TensorDE.Files

open IndexCache Sorting Patch Utf8 List

namespace DirectoryModel

variable {places : Places} {m m' : DirectoryModel}

def Sorted (m : DirectoryModel) : Prop := m.entries.Pairwise fun a b => Sorting.le (sortCmp m.sort) a b

/-- The invariant of a model whose entries have different names. -/
structure Sound (m : DirectoryModel) : Prop where
  stable : m.Stable
  named : m.Named
  sorted : m.Sorted

theorem sound_forDirectory (directory : Path) : (forDirectory places directory).Sound :=
  ⟨stable_forDirectory directory, named_forDirectory directory, .nil⟩

theorem Looked.sound (h : Looked m m') (hm : m.Sound) : m'.Sound where
  stable := h.stable hm.stable
  named := h.named hm.named
  sorted := by
    grind [hm.sorted, Sorted, h.entries, h.sort]

/-- Each entry of the later model is one of the earlier model under the same name and id, or it has one of the new
names. -/
def Continues (m m' : DirectoryModel) (new : List Str) : Prop :=
  ∀ e' ∈ m'.entries, (∃ e ∈ m.entries, e.name = e'.name ∧ e.id = e'.id) ∨
    e'.name ∈ new ∧ e'.name ∉ m.entries.map (·.name)

variable {new : List Str}

theorem Continues.keeps (h : Continues m m' new) (hn : (m.entries.map (·.name)).Nodup) {e e' : ModelEntry}
    (he : e ∈ m.entries) (he' : e' ∈ m'.entries) (hname : e.name = e'.name) : e.id = e'.id := by
  obtain ⟨old, ho, hon, hoid⟩ | hnew := h e' he'
  · grind [inj_on_of_nodup_map]
  grind

theorem Continues.refl (m : DirectoryModel) (new : List Str) : Continues m m new := fun e he => .inl ⟨e, he, rfl, rfl⟩

theorem Continues.of_subset (h : ∀ e ∈ m'.entries, e ∈ m.entries) : Continues m m' [] :=
  fun e he => .inl ⟨e, h e he, rfl, rfl⟩

theorem Looked.continues (h : Looked m m') : Continues m m' [] := .of_subset fun _ he => h.entries ▸ he

section Added

open ModelEntry

variable {c c' : Changes ModelEntry}

/-- What the loop over added items of different names keeps on top. -/
structure GrowsNamed (m : DirectoryModel) (all : List EntryData) (c : Changes ModelEntry)
    (rest : List EntryData) : Prop where
  named : c.model.Named
  names : c.model.entries.map (·.name) = m.entries.map (·.name)
  different : (c.added.map (·.name) ++ rest.map (·.name)).Nodup
  items : c.added.map (·.name) ++ rest.map (·.name) ⊆ all.map (·.name)
  new : ∀ e ∈ c.added, e.name ∉ m.entries.map (·.name)
  unchanged : c.changed = [] → c.model.entries = m.entries

variable {all : List EntryData}

theorem GrowsNamed.step {entry : EntryData} {rest : List EntryData} (h : GrowsNamed m all c (entry :: rest))
    (ha : Adds c entry c') : GrowsNamed m all c' rest := by
  cases ha with
  | @replaces index old m' hlooked hindex hold =>
    obtain ⟨e, he, hname⟩ := h.named.indexOfName_iff.mp hindex
    obtain rfl := Option.some.inj (he.symm.trans hold)
    have hnames : (c.model.entries.set index (refreshedEntry e entry)).map (·.name) = c.model.entries.map (·.name) :=
      map_set_same hold ((refreshedEntry_name e entry).trans hname.symm)
    have hrest : (c.added.map (·.name) ++ rest.map (·.name)).Sublist
        (c.added.map (·.name) ++ (entry :: rest).map (·.name)) :=
      List.Sublist.append_left (sublist_cons_self _ _) _
    refine { named := ?_, names := hnames.trans h.names, different := h.different.sublist hrest,
             items := List.Subset.trans hrest.subset h.items, new := h.new, unchanged := fun hc => ?_ }
    · refine (hlooked.named h.named).of_names ?_
      rw [hlooked.entries]
      exact hnames
    · exact absurd hc (by simp)
  | @joins m' hlooked hindex =>
    have hnone : entry.name ∉ c.model.entries.map (·.name) := by
      intro hmem
      obtain ⟨e, he, hname⟩ := mem_map.mp hmem
      obtain ⟨i, hi⟩ := mem_iff_getElem?.mp he
      have hfound := h.named.indexOfName_iff.mpr ⟨e, hi, hname⟩
      rw [hindex] at hfound
      exact absurd hfound (by simp)
    refine { named := ?_, names := ?_, different := ?_, items := ?_, new := ?_, unchanged := ?_ }
    · exact { hlooked.named h.named with }
    · exact (congrArg _ hlooked.entries).trans h.names
    · simpa [name, fromEntry] using h.different
    · simpa [name, fromEntry] using h.items
    · intro e he
      obtain he | he := mem_append.mp he
      · exact h.new e he
      · obtain rfl := mem_singleton.mp he
        exact h.names ▸ hnone
    · exact fun hc => hlooked.entries.trans (h.unchanged hc)

theorem named_rearranged {entries : List ModelEntry} (hn : (entries.map (·.name)).Nodup)
    (hp : m'.entries.Perm entries) : m'.markStructureChanged.Named :=
  named_markStructureChanged ((hp.map _).nodup_iff.mpr hn)

theorem settleChanged_sort (m : DirectoryModel) (changed : List Nat) (changedStructure : Bool) :
    (m.settleChanged changed changedStructure).2.entries = sortModelEntries m.entries m.sort ∧
      (m.settleChanged changed changedStructure).2.sort = m.sort := by
  unfold settleChanged
  split <;> exact ⟨rfl, rfl⟩

/-- After a sort the order is right. The name index may be off before it, if the structure changed. -/
theorem sound_settleChanged (hs : m.Stable) (hn : (m.entries.map (·.name)).Nodup) (changed : List Nat)
    (changedStructure : Bool) (hnamed : changedStructure = false → m.Named) :
    (m.settleChanged changed changedStructure).2.Sound := by
  obtain ⟨hentries, hsort⟩ := settleChanged_sort m changed changedStructure
  refine ⟨stable_settleChanged hs _ _, ?_, ?_⟩
  · unfold settleChanged
    split
    · exact named_rearranged hn (sortModelEntries_perm _ _)
    · rename_i hsame
      simp only [not_or, not_ne_iff, Bool.not_eq_true] at hsame
      have heq := eq_of_perm_of_map_eq (sortModelEntries_perm m.entries m.sort).symm hs.ids hsame.2
      exact ((hnamed hsame.1).of_names (congrArg _ heq.symm)).markMetadataChanged
  grind -linarith [Sorted, sortModelEntries_sorted]

theorem GrowsNamed.disjoint (h : GrowsNamed m all c []) (hm : (m.entries.map (·.name)).Nodup) :
    ((c.model.entries ++ c.added).map (·.name)).Nodup := by
  grind +splitImp +splitIndPred

theorem insertSortedModelEntries_sorted (hm : m.Sorted) {added : List ModelEntry}
    (ha : added.Pairwise fun a b => Sorting.le (sortCmp m.sort) a b) :
    (m.insertSortedModelEntries added).2.entries.Pairwise fun a b => Sorting.le (sortCmp m.sort) a b := by
  unfold insertSortedModelEntries
  split
  · exact hm
  · split
    · exact ha
    · exact mergeSortedModelEntriesInPlace_sorted hm ha

theorem GrowsNamed.finishAdded (h : GrowsNamed m all c []) (hg : Grows m c) (hm : (m.entries.map (·.name)).Nodup) :
    (finishAdded c).2.Named ∧ (m.Sorted → (finishAdded c).2.Sorted) := by
  have hnames := h.disjoint hm
  unfold DirectoryModel.finishAdded
  split
  · split
    · exact ⟨named_rearranged hnames (sortModelEntries_perm _ _), fun _ => sortModelEntries_sorted _ _⟩
    · rename_i hadded hchanged
      rw [not_ne_iff] at hchanged
      have hframe := insertSortedModelEntries_frame c.model (sortModelEntries c.added c.model.sort)
      have hperm := (insertSortedModelEntries_perm c.model (sortModelEntries c.added c.model.sort)).trans
        ((sortModelEntries_perm _ _).append_left c.model.entries)
      refine ⟨named_rearranged hnames hperm, fun hsorted => ?_⟩
      have hmodel : c.model.Sorted := by rwa [Sorted, h.unchanged hchanged, hg.place.2.2]
      rw [hframe]
      exact insertSortedModelEntries_sorted hmodel (sortModelEntries_sorted c.added c.model.sort)
  · split
    · grind +splitImp +splitIndPred [sound_settleChanged]
    · rename_i hchanged
      rw [not_ne_iff] at hchanged
      refine ⟨h.named, fun hsorted => ?_⟩
      rwa [Sorted, h.unchanged hchanged, hg.place.2.2]

theorem same_item {xs ys : List ModelEntry} (hn : xs.map (·.name) = ys.map (·.name))
    (hi : xs.map (·.id) = ys.map (·.id)) {e : ModelEntry} (he : e ∈ xs) : ∃ o ∈ ys, o.name = e.name ∧ o.id = e.id := by
  obtain ⟨i, hget⟩ := mem_iff_getElem?.mp he
  have hname := congrArg (fun zs => zs[i]?) hn
  have hid := congrArg (fun zs => zs[i]?) hi
  grind

theorem GrowsNamed.continues (h : GrowsNamed m all c []) (hg : Grows m c) :
    Continues m (DirectoryModel.finishAdded c).2 (all.map (·.name)) := by
  have hold : ∀ e ∈ c.model.entries, ∃ o ∈ m.entries, o.name = e.name ∧ o.id = e.id :=
    fun e he => same_item h.names hg.ids he
  have hall : ∀ e ∈ c.model.entries ++ c.added,
      (∃ o ∈ m.entries, o.name = e.name ∧ o.id = e.id) ∨
        e.name ∈ all.map (·.name) ∧ e.name ∉ m.entries.map (·.name) := by
    intro e he
    obtain he | he := mem_append.mp he
    · exact .inl (hold e he)
    · exact .inr ⟨h.items (mem_append_left _ (mem_map_of_mem he)), h.new e he⟩
  intro e he
  unfold DirectoryModel.finishAdded at he
  split at he
  · split at he
    · exact hall e ((sortModelEntries_perm _ _).mem_iff.mp he)
    · have hperm := (insertSortedModelEntries_perm c.model (sortModelEntries c.added c.model.sort)).trans
        ((sortModelEntries_perm _ _).append_left c.model.entries)
      exact hall e (hperm.mem_iff.mp he)
  grind [settleChanged_sort, sortModelEntries_perm]

/-- Items of different names join a model, whether or not it is in order just then. -/
theorem Stable.addNamed (hs : m.Stable) (hn : m.Named) {entries : List EntryData} (hd : (entries.map (·.name)).Nodup) :
    ∃ r, m.applyItemsAdded entries = some r ∧ r.2.Stable ∧ r.2.Named ∧ (m.Sorted → r.2.Sorted) ∧
      Continues m r.2 (entries.map (·.name)) := by
  unfold DirectoryModel.applyItemsAdded
  split
  · exact ⟨_, rfl, hs, hn, id, .refl m _⟩
  · have hstart : GrowsNamed m entries (.start m) entries :=
      ⟨hn, rfl, by simpa [Changes.start] using hd, by simp [Changes.start], fun e he => absurd he not_mem_nil,
        fun _ => rfl⟩
    obtain ⟨c, hc, hg, hgn⟩ := addItems (P := GrowsNamed m entries) entries (grows_start hs) hstart
      fun _ _ _ _ _ hp ha => hp.step ha
    grind [hgn.finishAdded, hn.names, hg.finishAdded, hgn.continues]

end Added

section Deleted

theorem Named.removed (h : m.Named) {entries : List ModelEntry} (hs : entries.Sublist m.entries) :
    ({ m with entries }.markStructureChanged).Named :=
  named_markStructureChanged (h.names.sublist (hs.map _))

theorem Named.applyItemsDeleted (h : m.Named) (places : Places) (paths : List Path) :
    (m.applyItemsDeleted places paths).2.Named ∧ (m.applyItemsDeleted places paths).2.entries.Sublist m.entries ∧
      (m.applyItemsDeleted places paths).2.sort = m.sort := by
  obtain ⟨indexes, m', hlooked, -, ⟨-, he⟩ | ⟨-, he⟩⟩ := applyItemsDeleted_cases places m paths
  · grind [hlooked.named, hlooked.entries, hlooked.sort]
  · rw [he]
    have hsub := removeIndexes_sublist m.entries indexes
    exact ⟨(hlooked.named h).removed (hlooked.entries ▸ hsub), hsub, hlooked.sort⟩

theorem Sound.applyItemsDeleted (h : m.Sound) (places : Places) (paths : List Path) :
    (m.applyItemsDeleted places paths).2.Sound := by
  obtain ⟨hnamed, hsub, hsort⟩ := h.named.applyItemsDeleted places paths
  refine ⟨h.stable.applyItemsDeleted places paths, hnamed, ?_⟩
  rw [Sorted, hsort]
  exact h.sorted.sublist hsub

end Deleted

section Refreshed

variable {c c' : Changes EntryData} {pair : RefreshPair Path EntryData} {pairs rest : List (RefreshPair Path EntryData)}

def nameOfPath (places : Places) (m : DirectoryModel) (path : Path) : Option Str :=
  match m.indexOfTarget path with
  | some i => m.entries[i]?.map (·.name)
  | none => places.entryName m.directory path

variable {path : Path}

theorem Named.name_of_found (h : m.Named) {i : Nat} {e : ModelEntry}
    (hi : (m.indexOfPath places path).1 = some i) (he : m.entries[i]? = some e) :
    m.nameOfPath places path = some e.name := by
  grind [indexOfPath, nameOfPath, h.indexOfName_iff.mp]

theorem Named.notMem_of_missing (h : m.Named) {name : Str} (hi : (m.indexOfPath places path).1 = none)
    (hn : m.nameOfPath places path = some name) : name ∉ m.entries.map (·.name) := by
  intro hmem
  obtain ⟨e, he, rfl⟩ := mem_map.mp hmem
  obtain ⟨i, hi'⟩ := mem_iff_getElem?.mp he
  unfold indexOfPath at hi
  unfold nameOfPath at hn
  cases ht : m.indexOfTarget path with
  | some index =>
    rw [ht] at hi
    cases hi
  | none =>
    have hfound := h.indexOfName_iff.mpr ⟨e, hi', rfl⟩
    grind

theorem indexOfTarget_congr {entries : List ModelEntry} {n : DirectoryModel} (hnet : n.isNetwork = m.isNetwork)
    (he : n.entries = entries)
    (ht : m.isNetwork → entries.map (·.entry.targetPath) = m.entries.map (·.entry.targetPath)) (path : Path) :
    n.indexOfTarget path = m.indexOfTarget path := by
  unfold indexOfTarget
  rw [hnet, he]
  split
  · rename_i hn
    have hfind : ∀ xs : List ModelEntry, (xs.findIdx? fun e => e.entry.targetPath = some path) =
        (xs.map (·.entry.targetPath)).findIdx? fun target => target = some path := fun xs => by
      rw [findIdx?_map]
      rfl
    rw [hfind, hfind, ht hn]
  · rfl

/-- A refresh of items under the names they have. In a network listing they also lead where they led. -/
structure SameNames (places : Places) (m : DirectoryModel) (pairs : List (RefreshPair Path EntryData)) : Prop where
  paths : (pairs.map (·.oldPath)).Nodup
  names : ∀ pair ∈ pairs, ∀ entry, pair.entry = some entry → m.nameOfPath places pair.oldPath = some entry.name
  targets : m.isNetwork → ∀ pair ∈ pairs, ∀ entry, pair.entry = some entry →
    ∀ e ∈ m.entries, e.name = entry.name → e.entry.targetPath = entry.targetPath

theorem SameNames.tail (h : SameNames places m (pair :: rest)) : SameNames places m rest where
  paths := (nodup_cons.mp h.paths).2
  names p hp := h.names p (mem_cons_of_mem _ hp)
  targets hn p hp := h.targets hn p (mem_cons_of_mem _ hp)

def newNames (m : DirectoryModel) (pairs : List (RefreshPair Path EntryData)) : List Str :=
  ((pairs.filterMap (·.entry)).map (·.name)).filter fun name => name ∉ m.entries.map (·.name)

/-- What the loop over refreshed items keeps while they keep their names. -/
structure FollowsNamed (places : Places) (m : DirectoryModel) (c : Changes EntryData)
    (rest : List (RefreshPair Path EntryData)) : Prop where
  named : c.model.Named
  names : c.model.entries.map (·.name) = m.entries.map (·.name)
  targets : m.isNetwork → c.model.entries.map (·.entry.targetPath) = m.entries.map (·.entry.targetPath)
  different : (c.added.map (·.name) ++ m.newNames rest).Nodup
  new : ∀ e ∈ c.added, e.name ∉ m.entries.map (·.name)
  unchanged : c.changed = [] → c.model.entries = m.entries
  same : SameNames places m rest

theorem FollowsNamed.nameOfPath_eq (h : FollowsNamed places m c rest) (hf : Follows m c) (path : Path) :
    c.model.nameOfPath places path = m.nameOfPath places path := by
  unfold nameOfPath
  rw [indexOfTarget_congr hf.place.2.1 rfl h.targets path, hf.place.1]
  cases m.indexOfTarget path with
  | none => rfl
  | some i => simpa using congrArg (fun xs => xs[i]?) h.names

theorem FollowsNamed.step (h : FollowsNamed places m c (pair :: rest)) (hf : Follows m c)
    (hr : Refreshes places c pair c') : FollowsNamed places m c' rest := by
  cases hr with
  | removes hnone =>
    refine { h with different := ?_, same := h.same.tail }
    simpa [newNames, hnone] using h.different
  | @replaces entry index old m' hentry hlooked hindex hold =>
    have hknown := h.same.names pair mem_cons_self entry hentry
    have hname : old.name = entry.name := by
      have hfound := h.named.name_of_found hindex hold
      rw [h.nameOfPath_eq hf, hknown] at hfound
      exact (Option.some.inj hfound).symm
    have hnames : (c.model.entries.set index (refreshedEntry old entry)).map (·.name) = c.model.entries.map (·.name) :=
      map_set_same hold ((refreshedEntry_name old entry).trans hname.symm)
    have hmem : entry.name ∈ m.entries.map (·.name) := h.names ▸ hname ▸ mem_map_of_mem (mem_of_getElem? hold)
    refine { named := ?_, names := hnames.trans h.names, targets := fun hnet => ?_, different := ?_, new := h.new,
             unchanged := fun hc => ?_, same := h.same.tail }
    · refine (hlooked.named h.named).of_names ?_
      rw [hlooked.entries]
      exact hnames
    · refine Eq.trans (map_set_same hold ?_) (h.targets hnet)
      have hi := congrArg (fun xs => xs[index]?) h.names
      have ht := congrArg (fun xs => xs[index]?) (h.targets hnet)
      grind -linarith [refreshedEntry_entry, h.same.targets, mem_cons_self]
    · grind [newNames, h.different]
    · exact absurd hc (by simp)
  | @misses entry m' hentry hlooked hindex =>
    have hknown := h.same.names pair mem_cons_self entry hentry
    have hnew : entry.name ∉ m.entries.map (·.name) :=
      h.names ▸ h.named.notMem_of_missing hindex ((h.nameOfPath_eq hf _).trans hknown)
    refine { named := hlooked.named h.named, names := (congrArg _ hlooked.entries).trans h.names,
             targets := fun hnet => (congrArg _ hlooked.entries).trans (h.targets hnet), different := ?_, new := ?_,
             unchanged := fun hc => hlooked.entries.trans (h.unchanged hc), same := h.same.tail }
    · grind [newNames, h.different]
    grind [h.new]

/-- The rest of a refresh, from the state its loop leaves. -/
theorem sound_finishRefreshed (places : Places) (hs : c.model.Stable) (hn : c.model.Named)
    (hd : (c.added.map (·.name)).Nodup) (hsorted : c.changed = [] → c.model.Sorted) :
    ∃ r, finishRefreshed places c = some r ∧ r.2.Sound ∧
      ∀ e' ∈ r.2.entries, (∃ e ∈ c.model.entries, e.name = e'.name ∧ e.id = e'.id) ∨ e'.name ∈ c.added.map (·.name) ∧
          e'.name ∉ (c.model.applyItemsDeleted places c.removed).2.entries.map (·.name) := by
  obtain ⟨hnamed, hsub, hsort⟩ := hn.applyItemsDeleted places c.removed
  obtain ⟨added, ha, has, han, hasorted, hcont⟩ := (hs.applyItemsDeleted places c.removed).addNamed hnamed hd
  refine ⟨_, by rw [finishRefreshed, ha, Option.map_some], ?_, fun e he => ?_⟩
  · unfold Changes.settle
    split
    · exact sound_settleChanged has han.names _ _ fun _ => han
    · refine ⟨has, han, hasorted ?_⟩
      grind -linarith [Sorted]
  · have hmem : e ∈ added.2.entries := by
      unfold Changes.settle at he
      split at he
      · rw [(settleChanged_sort _ _ _).1] at he
        exact (sortModelEntries_perm _ _).mem_iff.mp he
      · exact he
    obtain ⟨o, ho, hname, hid⟩ | hnew := hcont e hmem
    · exact .inl ⟨o, hsub.subset ho, hname, hid⟩
    · exact .inr hnew

theorem Sound.refreshNamed (h : m.Sound) (hsame : SameNames places m pairs) (hnew : (m.newNames pairs).Nodup) :
    ∃ r, m.applyItemsRefreshed places pairs = some r ∧ r.2.Sound ∧ ∃ new, Continues m r.2 new := by
  unfold applyItemsRefreshed
  split
  · exact ⟨_, rfl, h, [], .refl m _⟩
  · have hstart : FollowsNamed places m (.start m) pairs :=
      ⟨h.named, rfl, fun _ => rfl, by simpa [Changes.start] using hnew, fun e he => absurd he not_mem_nil,
        fun _ => rfl, hsame⟩
    obtain ⟨c, hc, hf, hfn⟩ := refreshItems (P := FollowsNamed places m) places pairs (follows_start h.stable) hstart
      fun _ _ _ _ hf hp hr => hp.step hf hr
    have hdifferent : (c.added.map (·.name)).Nodup := (nodup_append.mp hfn.different).1
    obtain ⟨r, hr, hsound, hcont⟩ := sound_finishRefreshed places hf.stable hfn.named hdifferent fun hc => by
      rw [Sorted, hfn.unchanged hc, hf.place.2.2]
      exact h.sorted
    refine ⟨r, by rw [hc, Option.bind_some, hr], hsound, c.added.map (·.name), fun e he => ?_⟩
    grind [same_item, hfn.names, hf.ids, hfn.new]

/-- The item of the pair, if the model has it, does not take the name of another item. -/
def FreeName (places : Places) (m : DirectoryModel) (pair : RefreshPair Path EntryData) : Prop :=
  ∀ entry name, pair.entry = some entry → m.nameOfPath places pair.oldPath = some name →
    name ∈ m.entries.map (·.name) → entry.name ∈ m.entries.map (·.name) → entry.name = name

theorem names_set {index : Nat} {old new : ModelEntry} (hn : (m.entries.map (·.name)).Nodup)
    (hold : m.entries[index]? = some old) (hnew : new.name ∈ m.entries.map (·.name) → new.name = old.name) :
    ((m.entries.set index new).map (·.name)).Nodup := by
  grind [map_set]

theorem Sound.refreshOne (h : m.Sound) (hfree : FreeName places m pair) :
    ∃ r, m.applyItemsRefreshed places [pair] = some r ∧ r.2.Sound ∧ ∃ new, Continues m r.2 new := by
  obtain ⟨c, hc, hr⟩ := refreshItem_refreshes (c := .start m) h.stable places pair
  have hrun : m.applyItemsRefreshed places [pair] = finishRefreshed places c := by
    simp [applyItemsRefreshed, hc]
  rw [hrun]
  cases hr with
  | removes hentry =>
    obtain ⟨r, hr, hsound, hcont⟩ := sound_finishRefreshed (c := { Changes.start m with removed := [pair.oldPath] })
      places h.stable h.named .nil fun _ => h.sorted
    refine ⟨r, hr, hsound, [], fun e he => (hcont e he).imp_right fun hadded => ?_⟩
    exact absurd hadded.1 not_mem_nil
  | @misses entry m' hentry hlooked hindex =>
    replace hlooked : Looked m m' := hlooked
    have hm' := hlooked.sound h
    obtain ⟨r, hr, hsound, hcont⟩ := sound_finishRefreshed (c := { Changes.start m with model := m', added := [entry] })
      places hm'.stable hm'.named (nodup_singleton _) fun _ => hm'.sorted
    refine ⟨r, hr, hsound, [entry.name], fun e he => ?_⟩
    rw [← hlooked.entries]
    exact hcont e he
  | @replaces entry index old m' hentry hlooked hindex hold =>
    have hname := h.named.name_of_found hindex hold
    have hmem : old.name ∈ m.entries.map (·.name) := mem_map_of_mem (mem_of_getElem? hold)
    have hnew : (refreshedEntry old entry).name ∈ m.entries.map (·.name) → (refreshedEntry old entry).name = old.name := by
      rw [refreshedEntry_name]
      exact hfree entry old.name hentry hname hmem
    have hids : (m.entries.set index (refreshedEntry old entry)).map (·.id) = m'.entries.map (·.id) := by
      rw [hlooked.entries]
      exact map_set_same hold (refreshedEntry_id old entry)
    refine ⟨_, rfl, ?_, [entry.name], fun e he => ?_⟩
    · refine sound_settleChanged ((hlooked.stable h.stable).of_ids hids) (names_set h.named.names hold hnew) _ _
        fun hsame => (hlooked.named h.named).of_names ?_
      grind [Changes.start, hlooked.entries, map_set_same]
    · have hin : e ∈ m.entries.set index (refreshedEntry old entry) := by
        have hsorted : e ∈ sortModelEntries (m.entries.set index (refreshedEntry old entry)) m'.sort :=
          (settleChanged_sort { m' with entries := m.entries.set index (refreshedEntry old entry) } _ _).1 ▸ he
        exact (sortModelEntries_perm _ _).mem_iff.mp hsorted
      obtain hin | rfl := mem_or_eq_of_mem_set hin
      · exact .inl ⟨e, hin, rfl, rfl⟩
      · by_cases hknown : (refreshedEntry old entry).name ∈ m.entries.map (·.name)
        · exact .inl ⟨old, mem_of_getElem? hold, (hnew hknown).symm, (refreshedEntry_id old entry).symm⟩
        · exact .inr ⟨by simp, hknown⟩

end Refreshed

section Listing

variable {entries : List EntryData}

variable {r : List ModelEntry × DirectoryModel}

section

variable (h : Identified m entries r)
include h

theorem Identified.names (hd : (entries.map (·.name)).Nodup) : (r.1.map (·.name)).Nodup := by
  have hperm := h.data.map EntryData.name
  rw [map_map] at hperm
  exact hperm.nodup_iff.mpr hd

theorem Identified.keeps :
    r.2.entries = m.entries := by rw [h.model]

theorem Identified.directory :
    r.2.directory = m.directory := by rw [h.model]

end

variable {news : List ModelEntry}

theorem sorted_replaceSameListingMetadata (hs : m.entries.map (·.name) = news.map (·.name))
    (hsorted : news.Pairwise fun a b => Sorting.le (sortCmp m.sort) a b)
    (hkept : ∀ e ∈ news, ∀ old ∈ m.entries, old.name = e.name → e = refreshedEntry old e.entry) :
    (m.replaceSameListingMetadata news).Sorted := by
  have hnames := forall₂_of_map_eq hs
  have hkeys : List.Forall₂ SameKey news (List.zipWith keepIdentity m.entries news) := by
    refine forall₂_iff_get.mpr ⟨by simp [hnames.length_eq], fun i hi hj => ?_⟩
    have hi' : i < m.entries.length := hnames.length_eq ▸ hi
    have hname : m.entries[i].name = news[i].name := hnames.get hi' hi
    have hnew := hkept _ (getElem_mem hi) _ (getElem_mem hi') hname
    have hkey : SameKey (refreshedEntry m.entries[i] news[i].entry) _ := sameKey_keepIdentity hname
    rw [← hnew] at hkey
    simpa using hkey
  exact pairwise_of_forall₂ hkeys (fun _ _ _ _ ha hb hle => ha.le hb hle) hsorted

theorem assignListingIdentity_known (hn : (m.entries.map (·.name)).Nodup) (hd : (entries.map (·.name)).Nodup)
    {e old : ModelEntry} (he : e ∈ (m.assignListingIdentity m.directory (entries.map ModelEntry.fromEntry)).1)
    (ho : old ∈ m.entries) (hname : old.name = e.name) : e = refreshedEntry old e.entry := by
  grind [assignListingIdentity, assignListingIdentityByName_known]

theorem Sound.installListing (h : m.Sound) (directory : Path)
    (hnames : (news.map (·.name)).Nodup) (hids : (news.map (·.id)).Nodup)
    (hassigned : ∀ e ∈ news, 0 < e.id ∧ e.id ≤ m.nextItemId)
    (hsorted : news.Pairwise fun a b => Sorting.le (sortCmp (m.sortFor places directory)) a b)
    (hkept : directory = m.directory → ∀ e ∈ news, ∀ old ∈ m.entries, old.name = e.name →
      e = refreshedEntry old e.entry) : (m.installListing places directory news).2.Sound ∧
      (directory = m.directory → Continues m (m.installListing places directory news).2 (news.map (·.name))) := by
  have hstable : (m.installListing places directory news).2.Stable := h.stable.installListing directory hids hassigned
  unfold DirectoryModel.installListing at hstable ⊢
  split at hstable
  · rename_i hsame
    rw [if_pos hsame]
    obtain ⟨rfl, hmap⟩ := sameListing_iff.mp hsame
    rw [sortFor, if_pos rfl] at hsorted
    have hsameNames : m.entries.map (·.name) = news.map (·.name) := by
      simpa [Function.comp_def] using congrArg (List.map Prod.fst) hmap
    have hlen : m.entries.length = news.length := by simpa using congrArg List.length hsameNames
    have hn := map_zipWith_left keepIdentity_name hlen
    have hi := map_zipWith_left keepIdentity_id hlen
    refine ⟨⟨hstable, (h.named.of_names hn).markMetadataChanged, ?_⟩, fun _ e he => ?_⟩
    · grind [sorted_replaceSameListingMetadata]
    · exact .inl (same_item hn hi he)
  · rename_i hdiffers
    rw [if_neg hdiffers]
    refine ⟨⟨hstable, named_markStructureChanged hnames, hsorted⟩, fun hdir e he => ?_⟩
    replace he : e ∈ news := he
    by_cases hknown : e.name ∈ m.entries.map (·.name)
    · grind [refreshedEntry_id]
    · exact .inr ⟨mem_map_of_mem he, hknown⟩

theorem Sound.count (h : m.Sound) {n : Nat} (hn : m.nextItemId ≤ n) :
    ({ m with nextItemId := n } : DirectoryModel).Sound :=
  ⟨h.stable.count n hn, { h.named with }, h.sorted⟩

/-- A listing keeps the items the model has, if it is one of the same directory. -/
theorem Sound.replaceListing (h : m.Sound) (directory : Path) (hd : (entries.map (·.name)).Nodup) :
    (m.replaceListing places directory entries).2.Sound ∧
      (directory = m.directory → ∃ new, Continues m (m.replaceListing places directory entries).2 new) := by
  have hi := h.stable.assignListingIdentity directory entries
  have hperm := sortModelEntries_perm (m.assignListingIdentity directory (entries.map ModelEntry.fromEntry)).1
    (m.sortFor places directory)
  have hcounted := h.count hi.counted
  rw [← hi.model] at hcounted
  have hsame : (m.assignListingIdentity directory (entries.map ModelEntry.fromEntry)).2.sortFor places directory =
      m.sortFor places directory := by
    rw [hi.model]
    rfl
  have hentries := hi.keeps
  have hdir := hi.directory
  have hkept : directory = (m.assignListingIdentity directory (entries.map ModelEntry.fromEntry)).2.directory →
      ∀ e ∈ sortModelEntries (m.assignListingIdentity directory (entries.map ModelEntry.fromEntry)).1
        (m.sortFor places directory),
      ∀ old ∈ (m.assignListingIdentity directory (entries.map ModelEntry.fromEntry)).2.entries, old.name = e.name →
        e = refreshedEntry old e.entry := by
    rw [hentries, hdir]
    rintro rfl e he old ho hname
    exact assignListingIdentity_known h.named.names hd (hperm.mem_iff.mp he) ho hname
  obtain ⟨hsound, hcont⟩ := hcounted.installListing directory ((hperm.map _).nodup_iff.mpr (hi.names hd))
    ((hperm.map _).nodup_iff.mpr hi.ids) (fun e he => hi.assigned e (hperm.mem_iff.mp he))
    (by rw [hsame]; exact sortModelEntries_sorted _ _) hkept
  refine ⟨hsound, fun heq => ?_⟩
  have hfound := hcont (heq.trans hdir.symm)
  rw [Continues, hentries] at hfound
  exact ⟨_, hfound⟩

theorem continues_clearForDirectory (directory : Path) : Continues m (m.clearForDirectory places directory).2 [] := by
  refine .of_subset fun e he => ?_
  unfold DirectoryModel.clearForDirectory at he
  split at he
  · exact he
  · cases he

theorem Sound.clearForDirectory (h : m.Sound) (directory : Path) : (m.clearForDirectory places directory).2.Sound := by
  refine ⟨h.stable.clearForDirectory directory, ?_, ?_⟩
  all_goals unfold DirectoryModel.clearForDirectory; split
  · exact h.named
  · exact named_markStructureChanged .nil
  · exact h.sorted
  · exact .nil

end Listing

section Roles

variable {index : Nat} {e old : ModelEntry}

theorem Sound.markMetadataChanged (h : m.Sound) : m.markMetadataChanged.Sound :=
  ⟨h.stable.markMetadataChanged, h.named.markMetadataChanged, h.sorted⟩

theorem Sound.setSort (h : m.Sound) (sort : SortDescriptor) : (m.setSort sort).2.Sound := by
  refine ⟨h.stable.setSort sort, ?_, ?_⟩
  all_goals unfold DirectoryModel.setSort; split
  · exact h.named
  · exact named_rearranged h.named.names (sortModelEntries_perm m.entries sort)
  · exact h.sorted
  · exact sortModelEntries_sorted m.entries sort

theorem continues_setSort (sort : SortDescriptor) : Continues m (m.setSort sort).2 [] := by
  refine .of_subset fun e he => ?_
  unfold DirectoryModel.setSort at he
  split at he
  · exact he
  · exact (sortModelEntries_perm _ _).mem_iff.mp he

theorem Sound.setEntry (h : m.Sound) (hold : m.entries[index]? = some old) (hid : e.id = old.id) (hk : SameKey old e) :
    ({ m with entries := m.entries.set index e } : DirectoryModel).Sound where
  stable := h.stable.of_ids (map_set_same hold hid)
  named := h.named.of_names (map_set_same hold hk.name.symm)
  sorted := pairwise_of_forall₂ (forall₂_set SameKey.refl hold hk) (fun _ _ _ _ ha hb hle => ha.le hb hle) h.sorted

theorem sameKey_storeRole (e : ModelEntry) : SameKey e (storeRole e e.effectiveMetadataRole) := by
  have hrole : (storeRole e e.effectiveMetadataRole).effectiveMetadataRole = e.effectiveMetadataRole := by
    unfold storeRole ModelEntry.normalizedRole
    split
    · rename_i hbase
      simp only [ModelEntry.metadataRoleMatchesBaseEntry, Bool.and_eq_true, decide_eq_true_eq] at hbase
      exact hbase.2
    · rfl
  have hsize : ∀ e : ModelEntry, e.effectiveSizeBytes = e.effectiveMetadataRole.sizeBytes := fun e => by
    unfold ModelEntry.effectiveSizeBytes ModelEntry.effectiveMetadataRole
    cases e.metadataRole <;> rfl
  have hmodified : ∀ e : ModelEntry, e.effectiveModifiedSecs = e.effectiveMetadataRole.modifiedSecs := fun e => by
    unfold ModelEntry.effectiveModifiedSecs ModelEntry.effectiveMetadataRole
    cases e.metadataRole <;> rfl
  exact sameKey_of_entry rfl (by rw [hsize, hsize, hrole]) (by rw [hmodified, hmodified, hrole])

theorem sorted_of_entries {xs ys : List ModelEntry} {sort : SortDescriptor} (hn : (xs.map (·.name)).Nodup)
    (he : xs.map (·.entry) = ys.map (·.entry)) (hr : metadataSortRoleNeedsResort sort = false)
    (hsorted : xs.Pairwise fun a b => Sorting.le (sortCmp sort) a b) :
    ys.Pairwise fun a b => Sorting.le (sortCmp sort) a b := by
  simp only [metadataSortRoleNeedsResort] at hr
  refine pairwise_of_forall₂ (forall₂_of_map_eq he) (fun a a' b b' hab hab' hle => ?_)
    (hsorted.and (pairwise_map.mp hn))
  grind [Sorting.le, sortCmp_of_entries]

theorem Sound.reportRole (h : m.Sound) (id : ItemId) (index : Nat) {entries changed : List ModelEntry}
    (hp : entries.Perm changed) (hc : changed.map (fun e => (e.id, e.name)) = m.entries.map fun e => (e.id, e.name))
    (hsorted : entries.Pairwise fun a b => Sorting.le (sortCmp m.sort) a b) :
    (m.reportRole id index entries).2.Sound := by
  have hids : changed.map (·.id) = m.entries.map (·.id) := by
    simpa [Function.comp_def] using congrArg (List.map Prod.fst) hc
  have hnames : changed.map (·.name) = m.entries.map (·.name) := by
    simpa [Function.comp_def] using congrArg (List.map Prod.snd) hc
  have hstable := h.stable.reportRole id index ((hp.map _).trans (List.Perm.of_eq hids))
  unfold DirectoryModel.reportRole at hstable ⊢
  split at hstable
  · rename_i hmoved
    rw [if_pos hmoved]
    exact ⟨hstable, named_rearranged (hnames ▸ h.named.names) hp, hsorted⟩
  · rename_i hstayed
    rw [if_neg hstayed]
    rw [not_ne_iff] at hstayed
    have hsame : entries = changed := by
      refine eq_of_perm_of_map_eq hp ?_ (hstayed.symm.trans hids.symm)
      exact hstayed ▸ h.stable.ids
    have hinner : ({ m with entries } : DirectoryModel).Sound :=
      ⟨h.stable.of_ids hstayed.symm, h.named.of_names (hsame ▸ hnames), hsorted⟩
    exact ((looked_indexOfId _ id).sound hinner).markMetadataChanged

theorem reportRole_entries (m : DirectoryModel) (id : ItemId) (index : Nat) (entries : List ModelEntry) :
    (m.reportRole id index entries).2.entries = entries := by
  unfold DirectoryModel.reportRole
  split
  · rfl
  · exact (looked_indexOfId ({ m with entries } : DirectoryModel) id).entries

theorem continues_of_set (hold : m.entries[index]? = some old) (hid : e.id = old.id) (hn : e.name = old.name)
    (hsub : ∀ x ∈ m'.entries, x ∈ m.entries.set index e) : Continues m m' [] := by
  intro x hx
  grind

theorem continues_changeRole (id : ItemId) (he : m.entries[index]? = some e) (role : EntryMetadataRole) :
    Continues m (m.changeRole id index e role).2 [] := by
  refine continues_of_set he (withRole_id e role) rfl fun x hx => ?_
  grind [DirectoryModel.changeRole, reportRole_entries, sortModelEntries_perm]

section

variable (h : m.Sound)
include h

theorem Sound.changeRole (id : ItemId) (he : m.entries[index]? = some e) (role : EntryMetadataRole) :
    (m.changeRole id index e role).2.Sound := by
  have hset : (m.entries.set index (withRole e role)).map (fun e => (e.id, e.name)) =
      m.entries.map fun e => (e.id, e.name) := map_set_same he rfl
  have hentries : (m.entries.set index (withRole e role)).map (·.entry) = m.entries.map (·.entry) :=
    map_set_same he (withRole_entry e role)
  unfold DirectoryModel.changeRole
  split
  · exact h.reportRole id index (sortModelEntries_perm _ _) hset (sortModelEntries_sorted _ _)
  · rename_i hr
    exact h.reportRole id index (.refl _) hset
      (sorted_of_entries h.named.names hentries.symm (Bool.not_eq_true _ ▸ hr) h.sorted)

theorem Sound.setMetadataRole (id : ItemId) (path : Path) (role : EntryMetadataRole) :
    ∃ r, m.setMetadataRole id path role = some r ∧ r.2.Sound ∧ Continues m r.2 [] := by
  unfold DirectoryModel.setMetadataRole
  obtain ⟨m', hlooked, hfound⟩ | ⟨index, m', e, hlooked, hfound, he, -⟩ := h.stable.byId id
  · exact ⟨_, by rw [hfound], hlooked.sound h, hlooked.continues⟩
  · have hm' := hlooked.sound h
    have hsame : ∀ {m''}, Continues m' m'' [] → Continues m m'' [] := fun hc => by
      rwa [Continues, hlooked.entries] at hc
    rw [hfound]
    refine ⟨_, by simp only [he, Option.map_some]; rfl, ?_⟩
    split
    · exact ⟨hm', hlooked.continues⟩
    · split
      · rename_i hrole
        split
        · refine ⟨(hm'.setEntry he (storeRole_id e role) ?_).markMetadataChanged, hsame ?_⟩
          · exact hrole ▸ sameKey_storeRole e
          · exact continues_of_set he (storeRole_id e role) rfl fun _ hx => hx
        · exact ⟨hm', hlooked.continues⟩
      grind [hm'.changeRole, continues_changeRole]

theorem Sound.setThumbnail (id : ItemId) (same : ModelEntry → Bool) {update : ModelEntry → ModelEntry}
    (hu : ∀ e, (update e).id = e.id ∧ SameKey e (update e)) :
    ∃ r, m.setThumbnail id same update = some r ∧ r.2.Sound ∧ Continues m r.2 [] := by
  unfold DirectoryModel.setThumbnail
  obtain ⟨m', hlooked, hfound⟩ | ⟨index, m', e, hlooked, hfound, he, -⟩ := h.stable.byId id
  · exact ⟨_, by rw [hfound], hlooked.sound h, hlooked.continues⟩
  · have hm' := hlooked.sound h
    rw [hfound]
    refine ⟨_, by simp only [he, Option.map_some]; rfl, ?_⟩
    split
    · exact ⟨hm', hlooked.continues⟩
    · refine ⟨(hm'.setEntry he (hu e).1 (hu e).2).markMetadataChanged, ?_⟩
      rw [Continues, ← hlooked.entries]
      exact continues_of_set he (hu e).1 (hu e).2.name.symm fun _ hx => hx

theorem Sound.setThumbnailPath (id : ItemId) (thumbnailPath : Option Path) :
    ∃ r, m.setThumbnailPath id thumbnailPath = some r ∧ r.2.Sound ∧ Continues m r.2 [] :=
  h.setThumbnail id _ fun _ => ⟨rfl, sameKey_of_entry rfl rfl rfl⟩

theorem Sound.setThumbnailFailed (id : ItemId) (failed : Bool) :
    ∃ r, m.setThumbnailFailed id failed = some r ∧ r.2.Sound ∧ Continues m r.2 [] :=
  h.setThumbnail id _ fun _ => ⟨rfl, sameKey_of_entry rfl rfl rfl⟩

end

end Roles

end DirectoryModel

end TensorDE.Files
