import TensorDE.Files.Entry

set_option linter.dupNamespace false

namespace TensorDE.Files

open List

structure SelectionState where
  selectedIds : List ItemId
  excludedIds : List ItemId
  allSelected : Bool
  anchorId : Option ItemId
  activeId : Option ItemId
  revision : Nat
deriving DecidableEq

namespace SelectionState

def default : SelectionState := ⟨[], [], false, none, none, 0⟩

variable (s : SelectionState)

def bumpRevision : SelectionState := { s with revision := (s.revision + 1) % 2 ^ 64 }

def countForModel (modelLen : Nat) : Nat :=
  if s.allSelected then modelLen - s.excludedIds.length else s.selectedIds.length

def isExcluded (id : ItemId) : Bool := id ∈ s.excludedIds

def isSelected (id : ItemId) : Bool :=
  if s.allSelected then !s.isExcluded id else id ∈ s.selectedIds

def isOnlySelected (id : ItemId) : Bool :=
  !s.allSelected ∧ s.excludedIds = [] ∧ s.selectedIds = [id] ∧ s.anchorId = some id ∧ s.activeId = some id

def clear : SelectionState :=
  { s with selectedIds := [], excludedIds := [], allSelected := false, anchorId := none, activeId := none }.bumpRevision

def selectOnly (id : ItemId) : SelectionState :=
  { s with
    selectedIds := [id]
    excludedIds := []
    allSelected := false
    anchorId := some id
    activeId := some id }.bumpRevision

def flip (ids : List ItemId) (id : ItemId) : List ItemId := if id ∈ ids then ids.erase id else ids ++ [id]

/-- Says whether the id is selected afterwards. -/
def toggle (id : ItemId) : Bool × SelectionState :=
  if s.allSelected then
    (id ∈ s.excludedIds,
      { s with anchorId := some id, activeId := some id, excludedIds := flip s.excludedIds id }.bumpRevision)
  else
    (id ∉ s.selectedIds,
      { s with anchorId := some id, activeId := some id, selectedIds := flip s.selectedIds id }.bumpRevision)

def firstAssigned (seen : List ItemId) : List ItemId → List ItemId
  | [] => []
  | id :: ids =>
    if id.isAssigned ∧ id ∉ seen then id :: firstAssigned (id :: seen) ids else firstAssigned seen ids

/-- An anchor that is not one of the ids gives way to the first of them. -/
def anchorAmong (anchor : Option ItemId) (ids : List ItemId) : Option ItemId :=
  if anchor.all fun id => id ∉ ids then ids.head? else anchor

def replace (ids : List ItemId) : SelectionState :=
  { s with
    selectedIds := firstAssigned [] ids
    excludedIds := []
    allSelected := false
    anchorId := anchorAmong s.anchorId (firstAssigned [] ids)
    activeId := anchorAmong s.activeId (firstAssigned [] ids) }.bumpRevision

def selectAll (anchorId : Option ItemId) : SelectionState :=
  if anchorId = none then s.clear
  else { s with selectedIds := [], excludedIds := [], allSelected := true, anchorId, activeId := anchorId }.bumpRevision

def replaceRangeWithActive (anchorId activeId : ItemId) (ids : List ItemId) : SelectionState :=
  { s.replace ids with anchorId := some anchorId, activeId := some activeId }

section Retain

variable {M : Type} (check : M → ItemId → Bool × M)

/-- The ids that pass the check. The check is made in the order of the list and may change what it looks at. -/
def retain (m : M) : List ItemId → List ItemId × M
  | [] => ([], m)
  | id :: ids =>
    (if (check m id).1 then id :: (retain (check m id).2 ids).1 else (retain (check m id).2 ids).1,
      (retain (check m id).2 ids).2)

variable (m : M)

/-- An id that fails the check gives way to another one. -/
def retainOne (id other : Option ItemId) : Option ItemId × M :=
  match id with
  | none => (none, m)
  | some id => (if (check m id).1 then some id else other, (check m id).2)

def retainAnchors (other : Option ItemId) (s : SelectionState) : SelectionState × M :=
  ({ s with
    anchorId := (retainOne check m s.anchorId other).1
    activeId := (retainOne check (retainOne check m s.anchorId other).2 s.activeId other).1 },
    (retainOne check (retainOne check m s.anchorId other).2 s.activeId other).2)

def retainExcluded (fallbackId : Option ItemId) (s : SelectionState) : SelectionState × M :=
  retainAnchors check (retain check m s.excludedIds).2 fallbackId
    { s with excludedIds := (retain check m s.excludedIds).1 }

def retainSelected (s : SelectionState) : SelectionState × M :=
  retainAnchors check (retain check m s.selectedIds).2 (retain check m s.selectedIds).1.head?
    { s with selectedIds := (retain check m s.selectedIds).1 }

def bumpIfChanged (list : SelectionState → List ItemId) (s before : SelectionState) : SelectionState :=
  if (list s).length ≠ (list before).length ∨ s.anchorId ≠ before.anchorId ∨ s.activeId ≠ before.activeId then
    s.bumpRevision
  else s

def clearIfNone (s : SelectionState) (fallbackId : Option ItemId) : SelectionState :=
  if fallbackId = none then s.clear else s

def retainExistingBy (fallbackId : Option ItemId) (s : SelectionState) : SelectionState × M :=
  if s.allSelected then
    (((retainExcluded check m fallbackId s).1.clearIfNone fallbackId).bumpIfChanged excludedIds s,
      (retainExcluded check m fallbackId s).2)
  else ((retainSelected check m s).1.bumpIfChanged selectedIds s, (retainSelected check m s).2)

end Retain

variable {s : SelectionState} {ids xs : List ItemId} {id other x : ItemId}

structure Fits (s : SelectionState) (ids : List ItemId) : Prop where
  selected : s.selectedIds.Nodup ∧ s.selectedIds ⊆ ids
  excluded : s.excludedIds.Nodup ∧ s.excludedIds ⊆ ids
  whole : s.allSelected = true → s.selectedIds = []
  listed : s.allSelected = false → s.excludedIds = []
  anchor : ∀ a, s.anchorId = some a → a ∈ ids
  active : ∀ a, s.activeId = some a → a ∈ ids

theorem fits_default (ids : List ItemId) : default.Fits ids where
  selected := ⟨.nil, nil_subset ids⟩
  excluded := ⟨.nil, nil_subset ids⟩
  whole _ := rfl
  listed _ := rfl
  anchor _ h := by cases h
  active _ h := by cases h

theorem filter_mem_perm (hn : ids.Nodup) (hx : xs.Nodup) (hsub : xs ⊆ ids) : (ids.filter (· ∈ xs)).Perm xs := by
  grind

theorem Fits.count (h : s.Fits ids) (hn : ids.Nodup) : s.countForModel ids.length = (ids.filter s.isSelected).length := by
  cases hall : s.allSelected with
  | true =>
    have hselected : s.isSelected = fun id => !decide (id ∈ s.excludedIds) := by
      funext id
      simp [isSelected, isExcluded, hall]
    have hexcluded := (filter_mem_perm hn h.excluded.1 h.excluded.2).length_eq
    grind [length_eq_length_filter_add, countForModel]
  | false =>
    have hselected : s.isSelected = fun id => decide (id ∈ s.selectedIds) := by
      funext id
      simp [isSelected, hall]
    rw [countForModel, hall, hselected, (filter_mem_perm hn h.selected.1 h.selected.2).length_eq]
    rfl

theorem Fits.stranger (h : s.Fits ids) (hx : x ∉ ids) : s.isSelected x = s.allSelected := by
  grind +splitImp +splitIndPred [isSelected, isExcluded]

section Changes

theorem Fits.bumpRevision (h : s.Fits ids) : s.bumpRevision.Fits ids := { h with }

theorem fits_clear (s : SelectionState) (ids : List ItemId) : s.clear.Fits ids :=
  Fits.bumpRevision { fits_default ids with }

theorem fits_selectOnly (s : SelectionState) (h : id ∈ ids) : (s.selectOnly id).Fits ids where
  selected := ⟨nodup_singleton id, cons_subset.mpr ⟨h, nil_subset ids⟩⟩
  excluded := ⟨.nil, nil_subset ids⟩
  whole hall := by cases hall
  listed _ := rfl
  anchor _ ha := Option.some.inj ha ▸ h
  active _ ha := Option.some.inj ha ▸ h

theorem nodup_flip (h : xs.Nodup) : (flip xs id).Nodup := by
  grind [flip]

theorem mem_flip (h : xs.Nodup) : x ∈ flip xs id ↔ (x = id ∧ id ∉ xs) ∨ (x ≠ id ∧ x ∈ xs) := by
  grind [flip]

theorem flip_subset (hid : id ∈ ids) (h : xs ⊆ ids) : flip xs id ⊆ ids := by
  grind [flip]

theorem Fits.toggle (h : s.Fits ids) (hid : id ∈ ids) : (s.toggle id).2.Fits ids := by
  unfold SelectionState.toggle
  split
  · exact Fits.bumpRevision { h with
      excluded := ⟨nodup_flip h.excluded.1, flip_subset hid h.excluded.2⟩
      listed := fun hlisted => absurd hlisted (by simp_all)
      anchor := fun _ ha => Option.some.inj ha ▸ hid
      active := fun _ ha => Option.some.inj ha ▸ hid }
  · exact Fits.bumpRevision { h with
      selected := ⟨nodup_flip h.selected.1, flip_subset hid h.selected.2⟩
      whole := fun hwhole => absurd hwhole (by simp_all)
      anchor := fun _ ha => Option.some.inj ha ▸ hid
      active := fun _ ha => Option.some.inj ha ▸ hid }

theorem Fits.isSelected_toggle (h : s.Fits ids) :
    (s.toggle id).2.isSelected x = if x = id then !s.isSelected id else s.isSelected x := by
  grind +splitImp +splitIndPred [flip, SelectionState.toggle, isSelected, isExcluded, SelectionState.bumpRevision]

theorem toggle_fst : (s.toggle id).1 = !s.isSelected id := by
  grind [SelectionState.toggle, isSelected, isExcluded]

variable (seen : List ItemId)

theorem mem_firstAssigned : x ∈ firstAssigned seen xs ↔ x.isAssigned ∧ x ∈ xs ∧ x ∉ seen := by
  induction xs generalizing seen with
  | nil => simp [firstAssigned]
  | cons id xs ih => grind [firstAssigned]

theorem nodup_firstAssigned : (firstAssigned seen xs).Nodup := by
  induction xs generalizing seen with
  | nil => exact .nil
  | cons id xs ih => grind [firstAssigned, mem_firstAssigned]

theorem mem_anchorAmong {anchor : Option ItemId} (h : anchorAmong anchor xs = some x) : x ∈ xs := by
  grind [anchorAmong, mem_of_head?]

theorem fits_replace (s : SelectionState) (h : xs ⊆ ids) : (s.replace xs).Fits ids := by
  have hsub : firstAssigned [] xs ⊆ ids := fun x hx => h ((mem_firstAssigned []).mp hx).2.1
  exact Fits.bumpRevision {
    selected := ⟨nodup_firstAssigned [], hsub⟩
    excluded := ⟨.nil, nil_subset ids⟩
    whole := fun hall => by cases hall
    listed := fun _ => rfl
    anchor := fun _ ha => hsub (mem_anchorAmong ha)
    active := fun _ ha => hsub (mem_anchorAmong ha) }

theorem fits_replaceRangeWithActive (s : SelectionState) (h : xs ⊆ ids) (hid : id ∈ ids) (hother : other ∈ ids) :
    (s.replaceRangeWithActive id other xs).Fits ids :=
  { fits_replace s h with
    anchor := fun _ ha => Option.some.inj ha ▸ hid
    active := fun _ ha => Option.some.inj ha ▸ hother }

theorem fits_selectAll (s : SelectionState) (ids : List ItemId) : (s.selectAll ids.head?).Fits ids := by
  unfold selectAll
  split
  · exact fits_clear s ids
  · exact {
      selected := ⟨.nil, nil_subset ids⟩
      excluded := ⟨.nil, nil_subset ids⟩
      whole := fun _ => rfl
      listed := fun _ => rfl
      anchor := fun _ ha => mem_of_head? ha
      active := fun _ ha => mem_of_head? ha }

theorem isSelected_selectAll (hx : x ∈ ids) : (s.selectAll ids.head?).isSelected x = true := by
  unfold selectAll
  split
  · rename_i hnone
    rw [head?_eq_none_iff.mp hnone] at hx
    cases hx
  · rfl

end Changes

section Retained

variable {M : Type} {check : M → ItemId → Bool × M} {Q : M → Prop} {m : M}

/-- The check answers whether the id is one of these, and keeps what it needs for that. -/
def Answers (check : M → ItemId → Bool × M) (Q : M → Prop) (ids : List ItemId) : Prop :=
  ∀ m id, Q m → ((check m id).1 = true ↔ id ∈ ids) ∧ Q (check m id).2

section

variable (h : Answers check Q ids)
include h

theorem Answers.retain (hm : Q m) (xs : List ItemId) :
    (SelectionState.retain check m xs).1 = xs.filter (· ∈ ids) ∧ Q (SelectionState.retain check m xs).2 := by
  induction xs generalizing m with
  | nil => exact ⟨rfl, hm⟩
  | cons id xs ih =>
    obtain ⟨hanswer, hnext⟩ := h m id hm
    grind [SelectionState.retain]

theorem Answers.retainOne (hm : Q m) (anchor fallback : Option ItemId)
    (hfallback : ∀ a, fallback = some a → a ∈ ids) :
    (∀ a, (SelectionState.retainOne check m anchor fallback).1 = some a → a ∈ ids) ∧
      Q (SelectionState.retainOne check m anchor fallback).2 := by
  cases anchor with
  | none => exact ⟨(fun a ha => by cases ha), hm⟩
  | some id =>
    obtain ⟨hanswer, hnext⟩ := h m id hm
    grind [SelectionState.retainOne]

theorem Answers.retainAnchors (hm : Q m) {fallback : Option ItemId}
    (hfallback : ∀ a, fallback = some a → a ∈ ids) (hselected : s.selectedIds.Nodup ∧ s.selectedIds ⊆ ids)
    (hexcluded : s.excludedIds.Nodup ∧ s.excludedIds ⊆ ids) (hwhole : s.allSelected = true → s.selectedIds = [])
    (hlisted : s.allSelected = false → s.excludedIds = []) :
    (SelectionState.retainAnchors check m fallback s).1.Fits ids ∧ Q (SelectionState.retainAnchors check m fallback s).2 := by
  obtain ⟨hanchor, hnext⟩ := h.retainOne hm s.anchorId fallback hfallback
  obtain ⟨hactive, hend⟩ := h.retainOne hnext s.activeId fallback hfallback
  exact ⟨⟨hselected, hexcluded, hwhole, hlisted, hanchor, hactive⟩, hend⟩

end

variable {list : SelectionState → List ItemId} {before : SelectionState}

theorem fits_bumpIfChanged (h : s.Fits ids) : (s.bumpIfChanged list before).Fits ids := by
  grind [bumpIfChanged, h.bumpRevision]

theorem isSelected_bumpIfChanged : (s.bumpIfChanged list before).isSelected x = s.isSelected x := by
  unfold bumpIfChanged
  split <;> rfl

theorem allSelected_bumpIfChanged : (s.bumpIfChanged list before).allSelected = s.allSelected := by
  unfold bumpIfChanged
  split <;> rfl

variable {old : List ItemId}

/-- The items that are gone leave the selection, and it says of the others what it said before. -/
theorem Fits.retainExistingBy (h : s.Fits old) (hanswers : Answers check Q ids) (hm : Q m) :
    (s.retainExistingBy check m ids.head?).1.Fits ids ∧ Q (s.retainExistingBy check m ids.head?).2 ∧
      (∀ x ∈ ids, (s.retainExistingBy check m ids.head?).1.isSelected x = s.isSelected x) ∧
      (ids ≠ [] → (s.retainExistingBy check m ids.head?).1.allSelected = s.allSelected) := by
  have hfilter : ∀ xs : List ItemId, xs.filter (· ∈ ids) ⊆ ids := fun xs x hx => by
    simpa using (mem_filter.mp hx).2
  have hhead : ∀ xs : List ItemId, xs ⊆ ids → ∀ a, xs.head? = some a → a ∈ ids := fun xs hxs a ha =>
    hxs (mem_of_head? ha)
  unfold SelectionState.retainExistingBy
  split
  · rename_i hall
    obtain ⟨hretained, hnext⟩ := hanswers.retain hm s.excludedIds
    have hselected : s.selectedIds = [] := h.whole hall
    obtain ⟨hfits, hend⟩ := hanswers.retainAnchors (s := { s with excludedIds := (retain check m s.excludedIds).1 }) hnext
      (hhead ids (List.Subset.refl ids)) ⟨h.selected.1, by simp [hselected]⟩
      ⟨hretained ▸ h.excluded.1.filter _, hretained ▸ hfilter _⟩ h.whole (fun hnot => by simp_all)
    refine ⟨?_, hend, fun x hx => ?_, fun hne => ?_⟩
    · apply fits_bumpIfChanged
      unfold clearIfNone
      split
      · exact fits_clear _ ids
      · exact hfits
    · have hne : ids.head? ≠ none := fun hnone => by simp_all
      grind [isSelected_bumpIfChanged, clearIfNone, isSelected, isExcluded, retainExcluded, retainAnchors]
    · have hne : ids.head? ≠ none := by simpa using hne
      rw [allSelected_bumpIfChanged, clearIfNone, if_neg hne]
      rfl
  grind -linarith [hanswers.retain, h.listed, hanswers.retainAnchors, h.selected.1.filter, fits_bumpIfChanged,
      isSelected_bumpIfChanged, isSelected, retainSelected, retainAnchors, allSelected_bumpIfChanged]

end Retained

end SelectionState

end TensorDE.Files
