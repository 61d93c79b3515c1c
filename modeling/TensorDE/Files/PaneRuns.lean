import TensorDE.Lib.Keyed
import TensorDE.Files.ListerRuns
import TensorDE.Files.ModelSignals
import TensorDE.Files.Pane

set_option linter.dupNamespace false

namespace TensorDE.Files

open Maps Trace Keyed DirectoryModel List

namespace DirectoryModel

variable {places : Places} {m : DirectoryModel}

variable {r : List DirectoryModelSignal × DirectoryModel}

theorem entries_of_faithful (h : Faithful m.entries r) (hr : r.1 = []) : r.2.entries = m.entries := by
  rw [Faithful, hr] at h
  exact (Option.some.inj h).symm

theorem Stable.indexOfId_isSome (h : m.Stable) {id : ItemId} :
    (m.indexOfId id).1.isSome ↔ id ∈ m.entries.map (·.id) := by
  rw [Option.isSome_iff_exists]
  constructor
  · grind [h.indexOfId_iff.mp]
  · intro hid
    obtain ⟨e, he, rfl⟩ := mem_map.mp hid
    obtain ⟨i, hi⟩ := mem_iff_getElem?.mp he
    exact ⟨i, h.indexOfId_iff.mpr ⟨e, hi, rfl⟩⟩

theorem settleChanged_ne_nil (m : DirectoryModel) (changed : List Nat) (changedStructure : Bool) :
    (m.settleChanged changed changedStructure).1 ≠ [] := by
  grind [settleChanged]

/-- A refresh without a signal has replaced nothing, and so it left the entries as they were. -/
theorem Stable.quiet_applyItemsRefreshed (h : m.Stable) {pairs : List (RefreshPair Path EntryData)} (hr : m.applyItemsRefreshed places pairs = some r) (hq : r.1 = []) :
    r.2.entries = m.entries := by
  have hundisturbed : (Operation.applyItemsRefreshed pairs).Undisturbed places m := by
    intro c hc
    refine .inl (by_contra fun hchanged => ?_)
    unfold DirectoryModel.applyItemsRefreshed at hr
    split at hr
    · rename_i hnone
      rw [hnone] at hc
      exact hchanged (Option.some.inj hc ▸ rfl)
    · rw [hc, Option.bind_some] at hr
      obtain ⟨added, -, rfl⟩ := Option.map_eq_some_iff.mp hr
      rw [Changes.settle, if_pos hchanged] at hq
      exact settleChanged_ne_nil _ _ _ (append_eq_nil_iff.mp hq).2
  grind [h.faithful_applyItemsRefreshed, entries_of_faithful]

end DirectoryModel

section Quiet

variable {places : Places} {l : DirectoryLister} {m : DirectoryModel} {event : ListerEvent} {r : DirectoryLister.Applied}

theorem dispatch_quiet (hs : m.Stable) (hr : l.dispatch places m event = some r) (hq : r.1 = []) :
    r.2.2.entries = m.entries := by
  have hreplace : ∀ directory entries, (m.replaceListing places directory entries).1 = [] →
      (m.replaceListing places directory entries).2.entries = m.entries := fun directory entries hnone =>
    entries_of_faithful (hs.faithful_replaceListing directory entries) hnone
  cases event with
  | loadingStarted target mode => exact Option.some.inj hr ▸ rfl
  | currentDirectoryRemoved target => exact Option.some.inj hr ▸ rfl
  | error target message => exact Option.some.inj hr ▸ rfl
  | networkAuthRequired target uri message username domain => exact Option.some.inj hr ▸ rfl
  | itemsAdded target entries =>
    rw [DirectoryLister.dispatch] at hr
    split at hr
    · grind
    · split at hr
      · grind
      · obtain ⟨added', hadded', hfaithful⟩ := hs.faithful_applyItemsAdded entries
        grind [entries_of_faithful]
  | itemsDeleted target paths =>
    obtain rfl := Option.some.inj hr
    exact entries_of_faithful (hs.faithful_applyItemsDeleted paths) hq
  | itemsRefreshed target pairs =>
    obtain ⟨refreshed, hrefreshed, rfl⟩ := Option.map_eq_some_iff.mp hr
    exact hs.quiet_applyItemsRefreshed hrefreshed hq
  | listingRefreshed target entries =>
    obtain rfl := Option.some.inj hr
    exact hreplace _ _ hq
  | listingCompleted target => grind [DirectoryLister.dispatch, clearForDirectory]

theorem applyEventToModel_quiet (hs : m.Stable) (hr : l.applyEventToModel places event m = some r) (hq : r.1 = []) :
    r.2.2.entries = m.entries := by
  grind [DirectoryLister.applyEventToModel, dispatch_quiet]

end Quiet

namespace Panes

namespace PaneState

variable {places : Places} {p : PaneState} {m : DirectoryModel}

def ids (p : PaneState) : List ItemId := p.model.entries.map (·.id)

def chosen (p : PaneState) : List ModelEntry := p.model.entries.filter fun e => p.selection.isSelected e.id

structure Fit (p : PaneState) : Prop where
  stable : p.model.Stable
  traced : p.model.Traced
  selection : p.selection.Fits p.ids

theorem fit_new (places : Places) (id : PaneId) (currentDir : Path) : (new places id currentDir).Fit :=
  ⟨stable_forDirectory currentDir, traced_forDirectory currentDir, SelectionState.fits_default _⟩

/-- A lookup touches nothing but the indexes of the model. -/
def Peeked (p p' : PaneState) : Prop := Looked p.model p'.model ∧ p' = { p with model := p'.model }

theorem Peeked.refl (p : PaneState) : Peeked p p := ⟨.refl p.model, rfl⟩

theorem Peeked.trans {p' p'' : PaneState} (h : Peeked p p') (h' : Peeked p' p'') : Peeked p p'' :=
  ⟨h.1.trans h'.1, by rw [h'.2, h.2]⟩

theorem peeked_of_looked (h : Looked p.model m) : Peeked p { p with model := m } := ⟨h, rfl⟩

variable {p' : PaneState}

section

variable (h : Peeked p p')
include h

theorem Peeked.entries : p'.model.entries = p.model.entries := h.1.entries

theorem Peeked.ids : p'.ids = p.ids := congrArg (List.map ModelEntry.id) h.entries

theorem Peeked.selection : p'.selection = p.selection := by rw [h.2]

theorem Peeked.fit (hf : p.Fit) : p'.Fit where
  stable := h.1.stable hf.stable
  traced := h.1.traced hf.traced
  selection := by
    rw [h.selection, h.ids]
    exact hf.selection

end

theorem Fit.select (h : p.Fit) {selection : SelectionState} (hs : selection.Fits p.ids) :
    ({ p with selection } : PaneState).Fit := ⟨h.stable, h.traced, hs⟩

section Lookups

theorem peeked_indexOfId (p : PaneState) (id : ItemId) : Peeked p (p.indexOfId id).2 :=
  peeked_of_looked (looked_indexOfId p.model id)

theorem peeked_indexOf (p : PaneState) (id : Option ItemId) : Peeked p (p.indexOf id).2 := by
  cases id with
  | none => exact .refl p
  | some id => exact peeked_indexOfId p id

variable {id : ItemId}

theorem Fit.indexOfId_iff (h : p.Fit) {i : Nat} :
    (p.indexOfId id).1 = some i ↔ ∃ e, p.model.entries[i]? = some e ∧ e.id = id := h.stable.indexOfId_iff

theorem Fit.indexOfId_isSome (h : p.Fit) : (p.indexOfId id).1.isSome ↔ id ∈ p.ids :=
  h.stable.indexOfId_isSome

theorem Fit.indexOf_lt (h : p.Fit) {id : Option ItemId} {i : Nat} (hi : (p.indexOf id).1 = some i) :
    i < p.model.entries.length := by
  cases id with
  | none => cases hi
  | some id =>
    obtain ⟨e, he, -⟩ := h.indexOfId_iff.mp hi
    exact (List.getElem?_eq_some_iff.mp he).1

theorem Fit.find_entry (h : p.Fit) {e : ModelEntry} (he : e ∈ p.model.entries) :
    p.model.entries.find? (fun other => other.id = e.id) = some e := (find?_key h.stable.ids).mpr ⟨he, rfl⟩

theorem Fit.idOfPath (h : p.Fit) (places : Places) (path : Path) :
    ∃ r, p.idOfPath places path = some r ∧ Peeked p r.2 ∧ ∀ id, r.1 = some id → id ∈ p.ids := by
  have hlooked := looked_indexOfPath places p.model path
  unfold PaneState.idOfPath
  split
  · grind [peeked_of_looked]
  · rename_i index m hm
    rw [hm] at hlooked
    have hlt : index < p.model.entries.length := h.stable.indexOfPath_lt (congrArg Prod.fst hm)
    obtain ⟨e, he⟩ : ∃ e, p.model.entries[index]? = some e := ⟨_, getElem?_eq_getElem hlt⟩
    rw [hlooked.entries, he]
    refine ⟨_, rfl, peeked_of_looked hlooked, fun id hid => ?_⟩
    obtain rfl := Option.some.inj hid
    exact mem_map_of_mem (mem_of_getElem? he)

theorem Fit.pathForSelectionId (h : p.Fit) (id : ItemId) :
    (p.pathForSelectionId id).1 = (p.model.entries.find? fun e => e.id = id).map p.model.pathForEntry := by
  have hpeeked := peeked_indexOfId p id
  have hpath : (p.indexOfId id).2.pathForIndex = p.pathForIndex := by
    funext index
    rw [pathForIndex, pathForIndex, hpeeked.entries]
    exact congrArg (Option.map · _) (funext hpeeked.1.pathForEntry)
  rw [PaneState.pathForSelectionId, hpath]
  cases hi : (p.indexOfId id).1 with
  | none =>
    have hnone : p.model.entries.find? (fun e => e.id = id) = none := by
      apply find?_eq_none.mpr
      intro e he hid
      have hmem : id ∈ p.ids := (by simpa using hid : e.id = id) ▸ mem_map_of_mem he
      rw [← h.indexOfId_isSome, hi] at hmem
      cases hmem
    rw [hnone]
    rfl
  | some i => grind [h.indexOfId_iff.mp, pathForIndex, h.find_entry]

theorem peeked_pathForSelectionId (p : PaneState) (id : ItemId) : Peeked p (p.pathForSelectionId id).2 :=
  peeked_indexOfId p id

theorem peeked_pathOf (p : PaneState) (id : Option ItemId) : Peeked p (p.pathOf id).2 := by
  cases id with
  | none => exact .refl p
  | some id => exact peeked_pathForSelectionId p id

def pathOfId (p : PaneState) (id : ItemId) : Option Path :=
  (p.model.entries.find? fun e => e.id = id).map p.model.pathForEntry

theorem Peeked.pathOfId (h : Peeked p p') : p'.pathOfId = p.pathOfId := by
  funext id
  rw [PaneState.pathOfId, PaneState.pathOfId, h.entries]
  exact congrArg (Option.map · _) (funext h.1.pathForEntry)

theorem Fit.pathsForSelectionIds (h : p.Fit) (ids : List ItemId) :
    (p.pathsForSelectionIds ids).1 = ids.filterMap p.pathOfId ∧ Peeked p (p.pathsForSelectionIds ids).2 := by
  induction ids generalizing p with
  | nil => exact ⟨rfl, .refl p⟩
  | cons id ids ih =>
    have hpeeked := peeked_pathForSelectionId p id
    obtain ⟨hpaths, hrest⟩ := ih (hpeeked.fit h)
    refine ⟨?_, hpeeked.trans hrest⟩
    rw [PaneState.pathsForSelectionIds, hpaths, hpeeked.pathOfId, h.pathForSelectionId, filterMap_cons]
    change (p.pathOfId id).toList ++ _ = _
    grind

/-- The positions of the elements that are kept lead to these elements. -/
theorem filterMap_positions {X Y : Type} (keep : X → Bool) (f : X → Y) (xs : List X) :
    ((range xs.length).filter fun i => xs[i]?.any keep).filterMap (fun i => xs[i]?.map f) =
      (xs.filter keep).map f := by
  induction xs using reverseRecOn with
  | nil => rfl
  | append_singleton xs x ih =>
    have hfront : ∀ i ∈ range xs.length, (xs ++ [x])[i]? = xs[i]? := fun i hi =>
      getElem?_append_left (mem_range.mp hi)
    rw [length_append, length_singleton, range_succ, filter_append, filterMap_append,
      filter_append, map_append, ← ih]
    congr 1
    · grind [filter_congr, filterMap_congr]
    · cases hx : keep x <;> simp [hx]

theorem Fit.selectedPathsFromModel (h : p.Fit) :
    p.selectedPathsFromModel.1.Perm (p.chosen.map p.model.pathForEntry) ∧ Peeked p p.selectedPathsFromModel.2 := by
  unfold PaneState.selectedPathsFromModel
  split
  · rename_i hall
    have hselected : p.selection.isSelected = fun id => !p.selection.isExcluded id := by
      funext id
      simp [SelectionState.isSelected, hall]
    refine ⟨List.Perm.of_eq ?_, .refl p⟩
    rw [chosen, hselected]
    exact filterMap_positions _ _ _
  · rename_i hlisted
    obtain ⟨hpaths, hpeeked⟩ := h.pathsForSelectionIds p.selection.selectedIds
    refine ⟨?_, hpeeked⟩
    have hselected : p.selection.isSelected = fun id => decide (id ∈ p.selection.selectedIds) := by
      funext id
      simp [SelectionState.isSelected, hlisted]
    have hids : (p.chosen.map (·.id)).Perm p.selection.selectedIds := by
      have hfilter : p.chosen.map (·.id) = p.ids.filter fun id => decide (id ∈ p.selection.selectedIds) := by
        rw [chosen, hselected, PaneState.ids, filter_map]
        rfl
      rw [hfilter]
      exact SelectionState.filter_mem_perm h.stable.ids h.selection.selected.1 h.selection.selected.2
    have hmap : p.chosen.map p.model.pathForEntry = (p.chosen.map (·.id)).filterMap p.pathOfId := by
      rw [filterMap_map, ← filterMap_eq_map]
      refine filterMap_congr fun e he => ?_
      rw [Function.comp_apply, Function.comp_apply, PaneState.pathOfId, h.find_entry (mem_filter.mp he).1]
      rfl
    grind

theorem Fit.selectedCount (h : p.Fit) : p.selectedCount = p.chosen.length := by
  have hcount := h.selection.count h.stable.ids
  rw [PaneState.ids, length_map, filter_map, length_map] at hcount
  exact hcount

end Lookups

section Selections

theorem Fit.anchorOr (h : p.Fit) {target : ItemId} (ht : target ∈ p.ids) :
    (p.anchorOr target).1 ∈ p.ids ∧ Peeked p (p.anchorOr target).2 := by
  unfold PaneState.anchorOr
  split
  · exact ⟨ht, .refl p⟩
  grind -linarith [peeked_indexOfId, h.indexOfId_isSome.mp]

theorem entriesBetween_ok {entries : List ModelEntry} {i j : Nat} (hi : i < entries.length) (hj : j < entries.length) :
    ∃ between, entriesBetween entries (min i j) (max i j) = some between ∧ between ⊆ entries := by
  refine ⟨_, if_pos ⟨by omega, by omega⟩, ?_⟩
  grind

section

variable (h : p.Fit)
include h

theorem Fit.selectRange {i : Nat} {e : ModelEntry} (he : p.model.entries[i]? = some e) :
    ∃ r, p.selectRange i e.id = some r ∧ r.2.Fit := by
  have hmem : e.id ∈ p.ids := mem_map_of_mem (mem_of_getElem? he)
  obtain ⟨hanchor, hfirst⟩ := h.anchorOr hmem
  unfold PaneState.selectRange
  rcases hor : p.anchorOr e.id with ⟨anchorId, q⟩
  rw [hor] at hanchor hfirst
  have hsecond := peeked_indexOfId q anchorId
  have hfound : ∀ index, (q.indexOfId anchorId).1 = some index → index < q.model.entries.length := fun index hindex =>
    @Fit.indexOf_lt q (hfirst.fit h) (some anchorId) index hindex
  rcases hindex : q.indexOfId anchorId with ⟨anchorIndex, q'⟩
  rw [hindex] at hsecond
  have hpeeked : Peeked p q' := hfirst.trans hsecond
  have hi : i < q'.model.entries.length := hpeeked.entries ▸ (List.getElem?_eq_some_iff.mp he).1
  have hstart : anchorIndex.getD i < q'.model.entries.length := by
    cases anchorIndex with
    | none => exact hi
    | some index => grind [hfirst.entries, hpeeked.entries]
  obtain ⟨between, hbetween, hsub⟩ := entriesBetween_ok hstart hi
  simp only [hindex, hbetween]
  refine ⟨_, rfl, (hpeeked.fit h).select (SelectionState.fits_replaceRangeWithActive _ ?_ ?_ ?_)⟩
  · exact map_subset _ hsub
  · rw [hpeeked.ids]
    exact hanchor
  · rw [hpeeked.ids]
    exact hmem

theorem Fit.isSelected (places : Places) (path : Path) : ∃ r, p.isSelected places path = some r ∧ r.2.Fit := by
  obtain ⟨r, hr, hpeeked, -⟩ := h.idOfPath places path
  exact ⟨_, by rw [PaneState.isSelected, hr, Option.map_some], hpeeked.fit h⟩

theorem Fit.selectOnly (places : Places) (path : Path) : ∃ r, p.selectOnly places path = some r ∧ r.2.Fit := by
  obtain ⟨⟨id, q⟩, hr, hpeeked, hids⟩ := h.idOfPath places path
  have hq := hpeeked.fit h
  refine ⟨_, by rw [PaneState.selectOnly, hr, Option.map_some], ?_⟩
  grind [hq.select, SelectionState.fits_selectOnly, hpeeked.ids]

theorem Fit.toggleSelection (places : Places) (path : Path) :
    ∃ r, p.toggleSelection places path = some r ∧ r.2.Fit ∧ r.2.model.entries = p.model.entries ∧
      (r.1 = none → r.2.selection = p.selection) ∧
      ∀ answer, r.1 = some answer → ∃ e ∈ p.model.entries, answer = !p.selection.isSelected e.id ∧
        ∀ x, r.2.selection.isSelected x = if x = e.id then answer else p.selection.isSelected x := by
  obtain ⟨⟨id, q⟩, hr, hpeeked, hids⟩ := h.idOfPath places path
  have hq := hpeeked.fit h
  refine ⟨_, by rw [PaneState.toggleSelection, hr, Option.map_some], ?_⟩
  cases id with
  | none => grind [hpeeked.entries, hpeeked.selection]
  | some id =>
    have hmem : id ∈ p.ids := hids id rfl
    refine ⟨hq.select (hq.selection.toggle (hpeeked.ids ▸ hmem)), hpeeked.entries, (fun hnone => by cases hnone), ?_⟩
    obtain ⟨e, he, rfl⟩ := mem_map.mp hmem
    grind -linarith [SelectionState.toggle_fst, hpeeked.selection, h.selection.isSelected_toggle]

theorem Fit.selectRangeTo (places : Places) (path : Path) : ∃ r, p.selectRangeTo places path = some r ∧ r.2.Fit := by
  have hlooked := looked_indexOfPath places p.model path
  unfold PaneState.selectRangeTo
  split
  · rename_i m hm
    rw [hm] at hlooked
    exact ⟨_, rfl, (peeked_of_looked hlooked).fit h⟩
  · rename_i i m hm
    rw [hm] at hlooked
    have hq := (peeked_of_looked hlooked).fit h
    have hlt : i < p.model.entries.length := h.stable.indexOfPath_lt (congrArg Prod.fst hm)
    obtain ⟨e, he⟩ : ∃ e, m.entries[i]? = some e := ⟨_, getElem?_eq_getElem (hlooked.entries ▸ hlt)⟩
    obtain ⟨r, hr, hfit⟩ := hq.selectRange (e := e) he
    exact ⟨_, by rw [he, Option.bind_some, hr, Option.map_some], hfit⟩

theorem Fit.currentIndex :
    Peeked p p.currentIndex.2 ∧ ∀ i, p.currentIndex.1 = some i → i < p.model.entries.length := by
  have hactive := peeked_indexOf p p.selection.activeId
  unfold PaneState.currentIndex
  split
  · grind [h.indexOf_lt]
  · rename_i q hq
    rw [hq] at hactive
    refine ⟨hactive.trans (peeked_indexOf q _), fun i hi => ?_⟩
    exact hactive.entries ▸ (hactive.fit h).indexOf_lt hi

end

theorem moveTarget_lt {current : Option Nat} (direction : SelectionMove) {len : Nat} (hpos : 0 < len)
    (hc : ∀ i, current = some i → i < len) : moveTarget current direction len < len := by
  cases current with
  | none => cases direction <;> simp only [moveTarget] <;> omega
  | some i =>
    have hi := hc i rfl
    cases direction <;> simp only [moveTarget] <;> omega

theorem Fit.moveSelection (h : p.Fit) (direction : SelectionMove) (extend : Bool) :
    ∃ r, p.moveSelection direction extend = some r ∧ r.2.Fit := by
  unfold PaneState.moveSelection
  split
  · exact ⟨_, rfl, h⟩
  · rename_i hne
    obtain ⟨hpeeked, hcurrent⟩ := h.currentIndex
    rcases hindex : p.currentIndex with ⟨current, q⟩
    rw [hindex] at hpeeked hcurrent
    have hq := hpeeked.fit h
    have hlt := moveTarget_lt direction (length_pos_iff.mpr hne) hcurrent
    rw [← hpeeked.entries] at hlt
    obtain ⟨e, he⟩ : ∃ e, q.model.entries[moveTarget current direction q.model.entries.length]? = some e :=
      ⟨_, getElem?_eq_getElem hlt⟩
    simp only [he]
    split
    · grind [hq.selectRange]
    · exact ⟨_, rfl, hq.select (SelectionState.fits_selectOnly _ (mem_map_of_mem (mem_of_getElem? he)))⟩

theorem Fit.selectAll (h : p.Fit) : p.selectAll.2.Fit ∧ p.selectAll.2.chosen = p.model.entries := by
  have hhead : p.model.entries.head?.map (·.id) = p.ids.head? := head?_map.symm
  constructor
  · refine h.select ?_
    rw [hhead]
    exact SelectionState.fits_selectAll _ p.ids
  · refine filter_eq_self.mpr fun e he => ?_
    change (p.selection.selectAll (p.model.entries.head?.map (·.id))).isSelected e.id = true
    rw [hhead]
    exact SelectionState.isSelected_selectAll (mem_map_of_mem he)

theorem Fit.replaceSelectionByIndexes (h : p.Fit) (indexes : List Nat) : (p.replaceSelectionByIndexes indexes).2.Fit := by
  refine h.select (SelectionState.fits_replace _ fun id hid => ?_)
  obtain ⟨index, -, hindex⟩ := mem_filterMap.mp hid
  obtain ⟨e, he, rfl⟩ := Option.map_eq_some_iff.mp hindex
  exact mem_map_of_mem (mem_of_getElem? he)

theorem Fit.clearSelection (h : p.Fit) : p.clearSelection.Fit := h.select (SelectionState.fits_clear _ _)

end Selections

section Navigation

theorem Fit.of_same (h : p.Fit) (hm : p'.model = p.model) (hs : p'.selection = p.selection) : p'.Fit where
  stable := hm ▸ h.stable
  traced := hm ▸ h.traced
  selection := by
    rw [hs, PaneState.ids, hm]
    exact h.selection

theorem Fit.turned (h : p.Fit) (hm : p'.model = p.model) (hs : p'.selection = p.selection.clear) : p'.Fit :=
  h.clearSelection.of_same hm hs

theorem Fit.navigateTo (h : p.Fit) (path : Path) (generation : Generation) : (p.navigateTo path generation).Fit := by
  unfold PaneState.navigateTo
  split
  · exact h.of_same rfl rfl
  · exact h.turned rfl rfl

variable {generation : Generation}

theorem Fit.popBack (h : p.Fit) (hp : p.popBack generation = some p') : p'.Fit := by
  obtain ⟨previous, -, rfl⟩ := Option.map_eq_some_iff.mp hp
  exact h.turned rfl rfl

theorem Fit.popForward (h : p.Fit) (hp : p.popForward generation = some p') : p'.Fit := by
  obtain ⟨next, -, rfl⟩ := Option.map_eq_some_iff.mp hp
  exact h.turned rfl rfl

end Navigation

section Updates

theorem answers_hasId (entries : List ModelEntry) :
    SelectionState.Answers hasId (fun m => m.Stable ∧ m.Traced ∧ m.entries = entries) (entries.map (·.id)) := by
  rintro m id ⟨hstable, htraced, rfl⟩
  have hlooked := looked_indexOfId m id
  exact ⟨hstable.indexOfId_isSome, hlooked.stable hstable, hlooked.traced htraced, hlooked.entries⟩

/-- The model of the pane is another one now. While the signals tell so, the selection follows. -/
theorem Fit.settle (h : p.Fit) {q : PaneState} {signals : List DirectoryModelSignal} (hstable : q.model.Stable)
    (htraced : q.model.Traced) (hselection : q.selection = p.selection)
    (hquiet : signals = [] → q.model.entries = p.model.entries) :
    (q.settle signals).Fit ∧ (q.settle signals).model.entries = q.model.entries ∧
      ∀ x ∈ q.ids, (q.settle signals).selection.isSelected x =
        if x ∈ p.ids then p.selection.isSelected x else p.selection.allSelected := by
  have hside : ∀ x, p.selection.isSelected x = if x ∈ p.ids then p.selection.isSelected x else p.selection.allSelected := by
    intro x
    split
    · rfl
    · rename_i hx
      exact h.selection.stranger hx
  unfold PaneState.settle
  split
  · rename_i hnone
    have hids : q.ids = p.ids := congrArg (List.map ModelEntry.id) (hquiet hnone)
    refine ⟨⟨hstable, htraced, by rw [hselection, hids]; exact h.selection⟩, rfl, fun x _ => ?_⟩
    rw [hselection]
    exact hside x
  · have hfits : q.selection.Fits p.ids := hselection ▸ h.selection
    have hretain := hfits.retainExistingBy (answers_hasId q.model.entries) ⟨hstable, htraced, rfl⟩
    rw [head?_map] at hretain
    obtain ⟨hretained, ⟨hs, ht, he⟩, hsame, -⟩ := hretain
    have hentries : q.retainExisting.model.entries = q.model.entries := he
    refine ⟨⟨hs, ht, ?_⟩, hentries, fun x hx => ?_⟩
    · rw [PaneState.ids, hentries]
      exact hretained
    · rw [← hside, ← hselection]
      exact hsame x hx

theorem Fit.applyPaneSort (h : p.Fit) (sort : SortDescriptor) : (p.applyPaneSort sort).2.Fit := by
  grind [DirectoryModel.setSort, h.traced, traced_markStructureChanged, h.settle, h.stable.setSort,
      applyPaneSort]

theorem Fit.setSort (h : p.Fit) (sort : SortDescriptor) : (p.setSort sort).2.Fit :=
  Fit.applyPaneSort (p := p.rememberSortOrder sort) ⟨h.stable, h.traced, h.selection⟩ sort

theorem Fit.applyEvent (h : p.Fit) (places : Places) (event : ListerEvent) :
    ∃ r, p.applyEvent places event = some r ∧ r.2.Fit ∧ ∀ x ∈ r.2.ids, r.2.selection.isSelected x =
      if x ∈ p.ids then p.selection.isSelected x else p.selection.allSelected := by
  unfold PaneState.applyEvent
  split
  · obtain ⟨applied, ha, -, hstable, htraced⟩ := Session.applyEventToModel_keeps places p.lister h.stable h.traced event
    refine ⟨_, by rw [ha, Option.map_some], ?_⟩
    grind [h.settle, applyEventToModel_quiet, h.stable, PaneState.ids]
  grind

end Updates

end PaneState

namespace PaneController

variable {places : Places} {c : PaneController}

def Fit (c : PaneController) : Prop := ∀ paneId p, c.panes.find paneId = some p → p.Fit

theorem fit_new (places : Places) (startDir : Path) : (new places startDir).Fit := by
  intro paneId p hp
  grind [new, Map.find_insert, Map.find_empty, PaneState.fit_new]

variable {paneId : PaneId} {p : PaneState} {d : PaneController}

theorem Fit.insert (h : c.Fit) (hp : p.Fit) (hd : d.panes = c.panes.insert paneId p) : d.Fit := by
  intro other q hq
  rw [hd, Map.find_insert] at hq
  split at hq
  · exact Option.some.inj hq ▸ hp
  · exact h other q hq

theorem Fit.onPane (h : c.Fit) (paneId : PaneId) {R : Type} {act : PaneState → Option (R × PaneState)}
    (hact : ∀ p, p.Fit → ∃ r, act p = some r ∧ r.2.Fit) : ∃ r, c.onPane paneId act = some r ∧ r.2.Fit := by
  unfold PaneController.onPane
  cases hp : c.panes.find paneId with
  | none => exact ⟨_, rfl, h⟩
  | some p =>
    obtain ⟨r, hr, hfit⟩ := hact p (h paneId p hp)
    exact ⟨(some r.1, { c with panes := c.panes.insert paneId r.2 }), by simp only [hr, Option.map_some],
      h.insert hfit rfl⟩

theorem fit_forkForPane {m : DirectoryModel} (hs : m.Stable) : (forkForPane m).Stable ∧ (forkForPane m).Traced := by
  refine ⟨⟨hs.ids, hs.assigned, fun _ => IndexCache.exact_nothing _ _, fun _ key i hi => ?_⟩,
    fun _ => IndexCache.right_nothing _ _⟩
  simp [forkForPane, IndexCache.new] at hi

section

variable (h : c.Fit)
include h

theorem Fit.split (places : Places) (source : PaneId) : (c.split places source).2.Fit := by
  unfold PaneController.split
  cases hp : c.panes.find source with
  | none => exact h
  | some p =>
    obtain ⟨hstable, htraced⟩ := fit_forkForPane (h source p hp).stable
    exact h.insert (p := splitOf places (c.allocated + 1) p) ⟨hstable, htraced, SelectionState.fits_default _⟩ rfl

theorem Fit.close (paneId : PaneId) : (c.close paneId).2.Fit := by
  unfold PaneController.close
  split
  · exact h
  · intro other p hp
    simp only [Map.find_erase] at hp
    split at hp
    · cases hp
    · exact h other p hp

theorem Fit.reload (paneId : PaneId) : ∃ r, c.reload paneId = some r ∧ r.2.Fit :=
  h.onPane paneId fun _ hp => ⟨_, rfl, hp.of_same rfl rfl⟩

theorem Fit.reloadEach (paneIds : List PaneId) : ∃ r, c.reloadEach paneIds = some r ∧ r.2.Fit := by
  induction paneIds generalizing c with
  | nil => exact ⟨_, rfl, h⟩
  | cons paneId paneIds ih =>
    obtain ⟨first, hfirst, hfit⟩ := h.reload paneId
    grind [PaneController.reloadEach]

theorem Fit.travel (paneId : PaneId) {pop : PaneState → Generation → Option PaneState}
    (hpop : ∀ p, p.Fit → ∀ generation q, pop p generation = some q → q.Fit) :
    ∃ r, c.travel paneId pop = some r ∧ r.2.Fit := by
  refine Fit.onPane (c := c.advance) h paneId fun p hp => ?_
  cases hq : pop p c.advance.generationCounter with
  | none => exact ⟨_, rfl, hp⟩
  | some q => exact ⟨_, rfl, (hpop p hp _ q hq).of_same rfl rfl⟩

theorem Fit.step (places : Places) (op : Operation) : ∃ d, c.step places op = some d ∧ d.Fit := by
  have hmap : ∀ {R : Type} {act : Option (R × PaneController)}, (∃ r, act = some r ∧ r.2.Fit) →
      ∃ d, act.map Prod.snd = some d ∧ d.Fit := by
    rintro R act ⟨r, hr, hfit⟩
    exact ⟨r.2, by rw [hr, Option.map_some], hfit⟩
  cases op with
  | focus paneId =>
    refine ⟨_, rfl, ?_⟩
    unfold PaneController.focus
    split <;> exact h
  | split source => exact ⟨_, rfl, h.split places source⟩
  | close paneId => exact ⟨_, rfl, h.close paneId⟩
  | load paneId path => exact hmap (Fit.onPane (c := c.advance) h paneId fun p hp =>
      ⟨_, rfl, (hp.navigateTo path _).of_same rfl rfl⟩)
  | reload paneId => exact hmap (h.reload paneId)
  | goBack paneId => exact hmap (h.travel paneId fun p hp generation q hq => hp.popBack hq)
  | goForward paneId => exact hmap (h.travel paneId fun p hp generation q hq => hp.popForward hq)
  | reloadPanesShowing path => exact hmap (h.reloadEach _)
  | selectedPaths paneId => exact hmap (h.onPane paneId fun p hp =>
      ⟨_, rfl, hp.selectedPathsFromModel.2.fit hp⟩)
  | selectionAnchorPath paneId => exact hmap (h.onPane paneId fun p hp =>
      ⟨_, rfl, (PaneState.peeked_pathOf p _).fit hp⟩)
  | selectionActivePath paneId => exact hmap (h.onPane paneId fun p hp =>
      ⟨_, rfl, (PaneState.peeked_pathOf p _).fit hp⟩)
  | isSelected paneId path => exact hmap (h.onPane paneId fun p hp => hp.isSelected places path)
  | selectOnly paneId path => exact hmap (h.onPane paneId fun p hp => hp.selectOnly places path)
  | toggleSelection paneId path =>
    exact hmap (h.onPane paneId fun p hp => (hp.toggleSelection places path).imp fun r hr => ⟨hr.1, hr.2.1⟩)
  | selectRangeTo paneId path => exact hmap (h.onPane paneId fun p hp => hp.selectRangeTo places path)
  | moveSelection paneId direction extend =>
    exact hmap (h.onPane paneId fun p hp => hp.moveSelection direction extend)
  | selectAll paneId => exact hmap (h.onPane paneId fun p hp => ⟨_, rfl, hp.selectAll.1⟩)
  | replaceSelectionByIndexes paneId indexes =>
    exact hmap (h.onPane paneId fun p hp => ⟨_, rfl, hp.replaceSelectionByIndexes indexes⟩)
  | clearSelection paneId => exact hmap (h.onPane paneId fun p hp => ⟨_, rfl, hp.clearSelection⟩)
  | setSort paneId sort => exact hmap (h.onPane paneId fun p hp => ⟨_, rfl, hp.setSort sort⟩)
  | setSortRole paneId role => exact hmap (h.onPane paneId fun p hp => ⟨_, rfl, hp.setSort _⟩)
  | setSortOrder paneId order => exact hmap (h.onPane paneId fun p hp => ⟨_, rfl, hp.setSort _⟩)
  | setSortFoldersFirst paneId foldersFirst => exact hmap (h.onPane paneId fun p hp => ⟨_, rfl, hp.setSort _⟩)
  | setSortHiddenLast paneId hiddenLast => exact hmap (h.onPane paneId fun p hp => ⟨_, rfl, hp.setSort _⟩)
  | applyListerEvent event =>
    exact hmap (h.onPane event.paneId fun p hp => (hp.applyEvent places event).imp fun r hr => ⟨hr.1, hr.2.1⟩)

theorem Fit.run (places : Places) (ops : List Operation) :
    ∃ d, Run (fun c op d => c.step places op = some d) c ops d := by
  induction ops generalizing c with
  | nil => exact ⟨c, .nil c⟩
  | cons op ops ih =>
    obtain ⟨next, hnext, hfit⟩ := h.step places op
    obtain ⟨d, hrun⟩ := ih hfit
    exact ⟨d, .cons hnext hrun⟩

theorem run_fit {ops : List Operation} (hrun : Run (fun c op d => c.step places op = some d) c ops d) : d.Fit := by
  induction hrun with
  | nil => exact h
  | cons hstep _ ih =>
    obtain ⟨next, hnext, hfit⟩ := h.step places _
    obtain rfl := Option.some.inj (hnext.symm.trans hstep)
    exact ih hfit

end

/-- What is selected in a pane: the count, the paths and the anchors agree with the entries of the model that are
selected, and a selection of everything is all of them but the excluded ones, through toggles and through events. -/
structure Agrees (places : Places) (c : PaneController) (paneId : PaneId) (p : PaneState) : Prop where
  count : c.selectedCount paneId = some (p.model.entries.filter fun e => p.selection.isSelected e.id).length
  paths : ∃ paths d, c.selectedPaths paneId = some (some paths, d) ∧
    paths.length = (p.model.entries.filter fun e => p.selection.isSelected e.id).length ∧
    paths.Perm ((p.model.entries.filter fun e => p.selection.isSelected e.id).map p.model.pathForEntry)
  anchor : ∀ id, p.selection.anchorId = some id → ∃ e ∈ p.model.entries, e.id = id
  active : ∀ id, p.selection.activeId = some id → ∃ e ∈ p.model.entries, e.id = id
  whole : p.selection.allSelected = true → ∀ e ∈ p.model.entries,
    p.selection.isSelected e.id = true ↔ e.id ∉ p.selection.excludedIds
  toggled : ∀ path answer q, p.toggleSelection places path = some (some answer, q) →
    ∃ e ∈ p.model.entries, answer = !p.selection.isSelected e.id ∧
      ∀ x, q.selection.isSelected x = if x = e.id then answer else p.selection.isSelected x
  followed : ∀ event signals q, p.applyEvent places event = some (signals, q) → ∀ e ∈ q.model.entries,
    q.selection.isSelected e.id =
      if e.id ∈ p.model.entries.map (·.id) then p.selection.isSelected e.id else p.selection.allSelected

theorem Fit.agrees (h : c.Fit) (places : Places) (hp : c.panes.find paneId = some p) : Agrees places c paneId p := by
  have hfit := h paneId p hp
  obtain ⟨hpaths, -⟩ := hfit.selectedPathsFromModel
  exact {
    count := by rw [PaneController.selectedCount, hp, Option.map_some, hfit.selectedCount]; rfl
    paths := by
      refine ⟨p.selectedPathsFromModel.1, { c with panes := c.panes.insert paneId p.selectedPathsFromModel.2 }, ?_, ?_,
        hpaths⟩
      · simp only [PaneController.selectedPaths, PaneController.onPane, hp, Option.map_some]
      · rw [hpaths.length_eq, length_map]
        rfl
    anchor := fun id hid => mem_map.mp (hfit.selection.anchor id hid)
    active := fun id hid => mem_map.mp (hfit.selection.active id hid)
    whole := fun hall e _ => by simp [SelectionState.isSelected, SelectionState.isExcluded, hall]
    toggled := by
      intro path answer q hq
      obtain ⟨r, hr, -, -, -, htoggled⟩ := hfit.toggleSelection places path
      grind -linarith
    followed := by
      intro event signals q hq e he
      obtain ⟨r, hr, -, hfollowed⟩ := hfit.applyEvent places event
      obtain rfl := Option.some.inj (hr.symm.trans hq)
      exact hfollowed e.id (mem_map_of_mem he) }

/-- Whatever is done to the panes, in any order, nothing panics, and the selection of every pane agrees with its model. -/
theorem selection_agrees (places : Places) (startDir : Path) (ops : List Operation) :
    (∃ c, Run (fun c op d => c.step places op = some d) (new places startDir) ops c) ∧
      ∀ c, Run (fun c op d => c.step places op = some d) (new places startDir) ops c →
        ∀ paneId p, c.panes.find paneId = some p → Agrees places c paneId p := by
  have hstart := fit_new places startDir
  refine ⟨hstart.run places ops, fun c hrun paneId p hp => ?_⟩
  exact (run_fit hstart hrun).agrees places hp

end PaneController

end Panes

end TensorDE.Files
