import TensorDE.Files.ModelStable

namespace TensorDE.Files

open Sorting Std ModelEntry List

namespace DirectoryModel

section Seek

variable {name : Utf8.Str} {remaining : List ModelEntry}

variable {old : ModelEntry}

theorem seekName_found (hs : remaining.Pairwise fun a b => Sorting.le nameCmp a b)
    (hn : (remaining.map (·.name)).Nodup) (ho : old ∈ remaining) (hname : old.name = name) :
    (seekName name remaining).1 = some old := by
  induction remaining with
  | nil => cases ho
  | cons first rest ih =>
    rw [pairwise_cons] at hs
    rw [map_cons, nodup_cons] at hn
    unfold seekName
    obtain rfl | hrest := mem_cons.mp ho
    · rw [entryNameCmp_eq_iff.mpr hname]
    · cases hcmp : entryNameCmp first.name name with
      | lt => exact ih hs.2 hn.2 hrest
      | eq =>
        have hsame : first.name = old.name := (entryNameCmp_eq_iff.mp hcmp).trans hname.symm
        grind
      | gt => grind [Sorting.le, nameCmp]

theorem mem_seekName_of_lt (ho : old ∈ remaining) (hlt : entryNameCmp name old.name = .lt) :
    old ∈ (seekName name remaining).2 := by
  have hcmp := transCmp_entryNameCmp
  have hback : entryNameCmp old.name name = .gt := hcmp.gt_iff_lt.mpr hlt
  induction remaining with
  | nil => cases ho
  | cons first rest ih => grind [seekName]

end Seek

section Assign

variable {news : List (ModelEntry × Nat)} {remaining : List ModelEntry} {next : Nat}

variable {old : ModelEntry}

/-- With the new entries in the order of their names, each one whose name is among the old ones takes the identity
of the old one. -/
theorem assignAll_known (hnews : news.Pairwise fun a b => entryNameCmp a.1.name b.1.name = .lt)
    (hfrom : ∀ new ∈ news, new.1 = fromEntry new.1.entry)
    (hs : remaining.Pairwise fun a b => Sorting.le nameCmp a b) (hn : (remaining.map (·.name)).Nodup)
    {w : ModelEntry × Nat} (hw : w ∈ (assignAll news remaining next).1) (ho : old ∈ remaining)
    (hname : old.name = w.1.name) : w.1 = refreshedEntry old w.1.entry := by
  induction news generalizing remaining next with
  | nil => cases hw
  | cons new news ih =>
    rw [pairwise_cons] at hnews
    simp only [mem_cons, forall_eq_or_imp] at hfrom
    have hsub := seekName_sublist new.1.name remaining
    -- An entry further on has a greater name, so the search left its old entry alone.
    have htail : ∀ next', w ∈ (assignAll news (seekName new.1.name remaining).2 next').1 →
        w.1 = refreshedEntry old w.1.entry := by
      intro next' hin
      have hrest := (sublist_append_right _ _).trans hsub
      have hentry : (w.1.entry, w.2) ∈ news.map fun w => (w.1.entry, w.2) :=
        assignAll_positions news _ next' ▸ mem_map_of_mem hin
      obtain ⟨later, hlater, heq⟩ := mem_map.mp hentry
      have hlt := hnews.1 later hlater
      have hsame : later.1.name = old.name := (congrArg EntryData.name (Prod.mk.inj heq).1).trans hname.symm
      exact ih hnews.2 hfrom.2 (hs.sublist hrest) (hn.sublist (hrest.map _)) hin (mem_seekName_of_lt ho (hsame ▸ hlt))
    grind [seekName_found, assignAll, ModelEntry.name, refreshedEntry, preserveRefreshedEntryRoles_entry]

theorem newInNameOrder_fromEntry (entries : List EntryData) :
    ∀ new ∈ newInNameOrder entries, new.1 = fromEntry new.1.entry := by
  intro new hnew
  have hfst : new.1 ∈ (entries.map fromEntry).zipIdx.map Prod.fst := mem_map_of_mem (mem_sortBy.mp hnew)
  rw [zipIdx_map_fst] at hfst
  obtain ⟨entry, -, he⟩ := mem_map.mp hfst
  rw [← he]
  rfl

variable {entries : List EntryData}

theorem newInNameOrder_sorted (hd : (entries.map (·.name)).Nodup) :
    (newInNameOrder entries).Pairwise fun a b => entryNameCmp a.1.name b.1.name = .lt := by
  have hle : (newInNameOrder entries).Pairwise fun a b => Sorting.le (fun a b => nameCmp a.1 b.1) a b :=
    sortBy_sorted (transCmp_comap (transCmp_comap transCmp_entryNameCmp ModelEntry.name) Prod.fst) _
  have hnames : ((newInNameOrder entries).map fun w => w.1.name).Nodup := by
    have hperm : ((newInNameOrder entries).map fun w => w.1.name).Perm
        ((entries.map fromEntry).zipIdx.map fun w => w.1.name) := (sortBy_perm _ _).map _
    refine hperm.nodup_iff.mpr ?_
    have hfst := congrArg (List.map ModelEntry.name) (zipIdx_map_fst 0 (entries.map fromEntry))
    rw [map_map, map_map] at hfst
    exact hfst ▸ hd
  refine (hle.and (pairwise_map.mp hnames)).imp fun {a b} h => ?_
  cases hcmp : entryNameCmp a.1.name b.1.name with
  | lt => rfl
  | eq => exact absurd (entryNameCmp_eq_iff.mp hcmp) h.2
  | gt => simp [Sorting.le, nameCmp, hcmp] at h

variable {m : DirectoryModel}

theorem assignListingIdentityByName_known (hn : (m.entries.map (·.name)).Nodup)
    (hd : (entries.map (·.name)).Nodup) {e : ModelEntry}
    (he : e ∈ (m.assignListingIdentityByName (entries.map fromEntry)).entries)
    (ho : old ∈ m.entries) (hname : old.name = e.name) : e = refreshedEntry old e.entry := by
  obtain ⟨w, hw, rfl⟩ := mem_map.mp ((assignListingIdentityByName_perm m entries).1.mem_iff.mp he)
  have hperm := sortBy_perm nameCmp m.entries
  refine assignAll_known (newInNameOrder_sorted hd) (newInNameOrder_fromEntry entries) ?_ ?_ hw
    (hperm.mem_iff.mpr ho) hname
  · exact sortBy_sorted (transCmp_comap transCmp_entryNameCmp ModelEntry.name) _
  · exact (hperm.map _).nodup_iff.mpr hn

end Assign

section Roles

def KeepsRole (old new : ModelEntry) : Prop :=
  ¬(old.name ≠ new.name ∨ old.isDir ≠ new.isDir ∨ !old.effectiveMetadataComplete ∨
      !new.newRequiresAsyncMetadataRole) ∧
    ¬(!old.effectiveMetadataRole.mimeMagicChecked) ∧
    old.effectiveMetadataRole.sizeBytes = new.baseMetadataRole.sizeBytes ∧
    old.effectiveMetadataRole.modifiedSecs = new.baseMetadataRole.modifiedSecs

variable {old new : ModelEntry}

theorem metadataRole_of_keepsRole (h : KeepsRole old new) :
    (old.preserveRefreshedEntryRoles new).metadataRole = new.normalizedRole old.effectiveMetadataRole := by
  rw [preserveRefreshedEntryRoles, preserveThumbnail, preservePendingEntryMetadataRole, if_neg h.1, if_neg h.2.1,
    if_pos h.2.2]

theorem metadataRole_of_not_keepsRole (h : ¬KeepsRole old new) :
    (old.preserveRefreshedEntryRoles new).metadataRole = new.metadataRole := by
  grind [preserveRefreshedEntryRoles, preserveThumbnail, preservePendingEntryMetadataRole, KeepsRole]

theorem metadataRole_again {old new new' : ModelEntry} (w : Nat)
    (he : new'.entry = { new.entry with nameWidthUnits := w })
    (hr : new'.metadataRole = (old.preserveRefreshedEntryRoles new).metadataRole) :
    (old.preserveRefreshedEntryRoles new').metadataRole = (old.preserveRefreshedEntryRoles new).metadataRole := by
  obtain ⟨id, entry, role, pending, path, failed⟩ := new'
  obtain rfl : entry = { new.entry with nameWidthUnits := w } := he
  by_cases h : KeepsRole old new
  · rw [metadataRole_of_keepsRole h, metadataRole_of_keepsRole (by exact h)]
    rfl
  · rw [metadataRole_of_not_keepsRole (by exact h)]
    exact hr

theorem sameKey_keepIdentity {entry : EntryData} (hname : old.name = entry.name) :
    SameKey (refreshedEntry old entry) (keepIdentity old (refreshedEntry old entry)) := by
  have hentry : (keepIdentity old (refreshedEntry old entry)).entry =
      { entry with nameWidthUnits := old.entry.nameWidthUnits } := by
    simp [keepIdentity, hname]
  have hrole : (keepIdentity old (refreshedEntry old entry)).metadataRole = (refreshedEntry old entry).metadataRole :=
    metadataRole_again old.entry.nameWidthUnits (by simp [fromEntry, hname]) rfl
  refine ⟨?_, ?_, ?_, ?_, ?_, ?_⟩
  · simp [ModelEntry.name, hentry]
  · simp [ModelEntry.isDir, hentry]
  · simp [effectiveSizeBytes, hrole, hentry]
  · simp [effectiveModifiedSecs, hrole, hentry]
  · simp [hentry]
  · simp [hentry]

end Roles

end DirectoryModel

end TensorDE.Files
