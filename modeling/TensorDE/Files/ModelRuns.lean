import TensorDE.Lib.Trace
import TensorDE.Files.ModelInvariant

namespace TensorDE.Files

open Sorting Trace Utf8 List

namespace DirectoryModel

variable {places : Places} {m m' : DirectoryModel}

/-- What is promised of the operations: a listing or a batch has different names, and a refresh is one of distinct
paths under the names that the model knows them by, or one of a single path. -/
def Operation.Allowed (places : Places) (m : DirectoryModel) : Operation → Prop
  | .replaceListing _ entries => (entries.map (·.name)).Nodup
  | .applyItemsAdded entries => (entries.map (·.name)).Nodup
  | .applyItemsRefreshed pairs =>
    ((pairs.map (·.oldPath)).Nodup ∧ ∀ pair ∈ pairs, ∀ entry, pair.entry = some entry →
      m.nameOfPath places pair.oldPath = some entry.name) ∨ ∃ pair, pairs = [pair]
  | _ => True

/-- A refresh brings no two items of one name that the model does not have, a single item does not take the name of
another one, and several items of a network listing lead where they led. -/
def Operation.Clean (places : Places) (m : DirectoryModel) : Operation → Prop
  | .applyItemsRefreshed pairs =>
    (m.newNames pairs).Nodup ∧ (∀ pair, pairs = [pair] → FreeName places m pair) ∧
      (2 ≤ pairs.length → m.isNetwork → ∀ pair ∈ pairs, ∀ entry, pair.entry = some entry →
        ∀ e ∈ m.entries, e.name = entry.name → e.entry.targetPath = entry.targetPath)
  | _ => True

theorem Sound.applyItemsRefreshed (h : m.Sound) {pairs : List (RefreshPair Path EntryData)}
    (ha : (Operation.applyItemsRefreshed pairs).Allowed places m)
    (hc : (Operation.applyItemsRefreshed pairs).Clean places m) :
    ∃ r, m.applyItemsRefreshed places pairs = some r ∧ r.2.Sound ∧ ∃ new, Continues m r.2 new := by
  obtain ⟨hnew, hfree, htargets⟩ := hc
  by_cases hone : ∃ pair, pairs = [pair]
  · obtain ⟨pair, rfl⟩ := hone
    exact h.refreshOne (hfree pair rfl)
  · obtain ⟨hpaths, hnames⟩ := ha.resolve_right hone
    refine h.refreshNamed ⟨hpaths, hnames, fun hnet pair hpair => ?_⟩ hnew
    have hlen : 2 ≤ pairs.length := by
      match pairs, hone with
      | [], _ => cases hpair
      | [pair], hone => exact absurd ⟨pair, rfl⟩ hone
      | _ :: _ :: _, _ => simp
    exact htargets hlen hnet pair hpair

/-- One operation. Only a listing of another directory gives the items new ids. -/
theorem Sound.perform (h : m.Sound) {op : Operation} (ha : op.Allowed places m) (hc : op.Clean places m) :
    ∃ r, m.perform places op = some r ∧ r.2.Sound ∧ (r.2.directory = m.directory → ∃ new, Continues m r.2 new) := by
  cases op with
  | replaceListing directory entries =>
    obtain ⟨hsound, hcont⟩ := h.replaceListing directory ha
    refine ⟨_, rfl, hsound, fun hdir => hcont ?_⟩
    grind [replaceListing_directory]
  | applyItemsAdded entries =>
    obtain ⟨r, hr, hs, hn, hsorted, hcont⟩ := h.stable.addNamed h.named ha
    exact ⟨r, hr, ⟨hs, hn, hsorted h.sorted⟩, fun _ => ⟨_, hcont⟩⟩
  | applyItemsDeleted paths =>
    have hsub := (h.named.applyItemsDeleted places paths).2.1
    exact ⟨_, rfl, h.applyItemsDeleted places paths, fun _ => ⟨[], .of_subset fun e he => hsub.subset he⟩⟩
  | applyItemsRefreshed pairs =>
    obtain ⟨r, hr, hsound, hcont⟩ := h.applyItemsRefreshed ha hc
    exact ⟨r, hr, hsound, fun _ => hcont⟩
  | setSort sort => exact ⟨_, rfl, h.setSort sort, fun _ => ⟨[], continues_setSort sort⟩⟩
  | setMetadataRole id path role =>
    obtain ⟨r, hr, hsound, hcont⟩ := h.setMetadataRole id path role
    exact ⟨r, hr, hsound, fun _ => ⟨_, hcont⟩⟩
  | setThumbnailPath id thumbnailPath =>
    obtain ⟨r, hr, hsound, hcont⟩ := h.setThumbnailPath id thumbnailPath
    exact ⟨r, hr, hsound, fun _ => ⟨_, hcont⟩⟩
  | setThumbnailFailed id failed =>
    obtain ⟨r, hr, hsound, hcont⟩ := h.setThumbnailFailed id failed
    exact ⟨r, hr, hsound, fun _ => ⟨_, hcont⟩⟩
  | clearForDirectory directory =>
    exact ⟨_, rfl, h.clearForDirectory directory, fun _ => ⟨[], continues_clearForDirectory directory⟩⟩
  | indexOfPath path =>
    have hlooked := looked_indexOfPath places m path
    exact ⟨_, rfl, hlooked.sound h, fun _ => ⟨[], hlooked.continues⟩⟩
  | indexOfId id =>
    have hlooked := looked_indexOfId m id
    exact ⟨_, rfl, hlooked.sound h, fun _ => ⟨[], hlooked.continues⟩⟩

/-- The entry that a path stands for: one that leads to it in a network listing, else the one of its name. -/
def Matches (places : Places) (m : DirectoryModel) (path : Path) (e : ModelEntry) : Prop :=
  (m.isNetwork ∧ e.entry.targetPath = some path) ∨
    (¬∃ o ∈ m.entries, m.isNetwork ∧ o.entry.targetPath = some path) ∧
      places.entryName m.directory path = some e.name

variable {path : Path} {i : Nat}

theorem indexOfTarget_some (h : m.indexOfTarget path = some i) :
    ∃ e, m.entries[i]? = some e ∧ m.isNetwork ∧ e.entry.targetPath = some path := by
  unfold indexOfTarget at h
  split at h
  · obtain ⟨hi, htarget, -⟩ := findIdx?_eq_some_iff_getElem.mp h
    grind
  · cases h

theorem indexOfTarget_none (h : m.indexOfTarget path = none) :
    ¬∃ o ∈ m.entries, m.isNetwork ∧ o.entry.targetPath = some path := by
  grind [indexOfTarget]

theorem Named.indexOfPath_matches (h : m.Named)
    (hi : (m.indexOfPath places path).1 = some i) : ∃ e, m.entries[i]? = some e ∧ Matches places m path e := by
  grind [indexOfPath, indexOfTarget_some, h.indexOfName_iff.mp, indexOfTarget_none, Matches]

theorem Named.indexOfPath_none (h : m.Named) (hi : (m.indexOfPath places path).1 = none) :
    ∀ e ∈ m.entries, ¬Matches places m path e := by
  intro e he hmatch
  unfold indexOfPath at hi
  cases ht : m.indexOfTarget path with
  | some index =>
    rw [ht] at hi
    cases hi
  | none =>
    rw [ht] at hi
    obtain htarget | ⟨-, hn⟩ := hmatch
    · exact indexOfTarget_none ht ⟨e, he, htarget⟩
    · simp only [hn] at hi
      obtain ⟨i, hget⟩ := mem_iff_getElem?.mp he
      rw [h.indexOfName_iff.mpr ⟨e, hget, rfl⟩] at hi
      cases hi

/-- The operations of a run, each of the kind `P` in the state it is done in. -/
def Step (P : DirectoryModel → Operation → Prop) (places : Places) (m : DirectoryModel) (op : Operation)
    (m' : DirectoryModel) : Prop :=
  P m op ∧ ∃ signals, m.perform places op = some (signals, m')

theorem sound_run {ops : List Operation} (hm : m.Sound)
    (h : Run (Step (fun m op => op.Allowed places m ∧ op.Clean places m) places) m ops m') : m'.Sound := by
  refine h.invariant (Q := fun _ => True) (fun s op t hs _ hstep => ?_) hm fun _ _ => trivial
  obtain ⟨⟨ha, hc⟩, signals, hperform⟩ := hstep
  grind [hs.perform]

/-- In every run whose operations are clean, the names and the ids are distinct, the entries are in order, both
lookups find the matching entry exactly if there is one, no operation panics, and an item of the directory keeps its id
as long as its name stays. -/
theorem directory_model_invariant (places : Places) (directory : Path) (ops : List Operation) (m : DirectoryModel)
    (h : Run (Step (fun m op => op.Allowed places m ∧ op.Clean places m) places) (forDirectory places directory) ops m) :
    (m.entries.map (·.name)).Nodup ∧ (m.entries.map (·.id)).Nodup ∧ (∀ e ∈ m.entries, e.id.isAssigned) ∧
      m.entries.Pairwise (fun a b => sortCmp m.sort a b ≠ .gt) ∧
      (∀ path i, (m.indexOfPath places path).1 = some i → ∃ e, m.entries[i]? = some e ∧ Matches places m path e) ∧
      (∀ path, (m.indexOfPath places path).1 = none → ∀ e ∈ m.entries, ¬Matches places m path e) ∧
      (∀ id i, (m.indexOfId id).1 = some i ↔ ∃ e, m.entries[i]? = some e ∧ e.id = id) ∧
      ∀ op, op.Allowed places m → op.Clean places m → ∃ signals m', m.perform places op = some (signals, m') ∧
        (m'.directory = m.directory → ∀ e ∈ m.entries, ∀ e' ∈ m'.entries, e.name = e'.name → e.id = e'.id) := by
  have hm := sound_run (sound_forDirectory directory) h
  refine ⟨hm.named.names, hm.stable.ids, fun e he => ?_, ?_, ?_, ?_, ?_, fun op ha hc => ?_⟩
  · exact ItemId.isAssigned_iff.mpr (hm.stable.assigned e he).1
  · grind -linarith [hm.sorted.imp, Sorting.le]
  · exact fun path i => hm.named.indexOfPath_matches
  · exact fun path => hm.named.indexOfPath_none
  · exact fun id i => hm.stable.indexOfId_iff
  · obtain ⟨r, hr, -, hcont⟩ := hm.perform ha hc
    refine ⟨r.1, r.2, hr, fun hdir e he e' he' hname => ?_⟩
    obtain ⟨new, hnew⟩ := hcont hdir
    exact hnew.keeps hm.named.names he he' hname

section Sample

/-- A directory of no special kind, and files in it. -/
def plain : Places := ⟨⟨true, [[0x74]]⟩, ⟨true, [[0x69]]⟩, fun _ => false⟩

def folder : Path := ⟨true, [[0x64]]⟩

def file (name : Char) (sizeBytes : Nat) : EntryData :=
  ⟨[name], 1, none, sizeBytes, none, true, none, true, none, none, false⟩

def pathOf (name : Char) : Path := folder.join (encode [name])

def refreshed : List Operation :=
  [.replaceListing folder [file 'b' 1, file 'a' 1], .applyItemsRefreshed [⟨pathOf 'a', some (file 'a' 2)⟩]]

theorem run_refreshed : ∃ m, Run (Step (fun m op => op.Allowed plain m ∧ op.Clean plain m) plain)
    (forDirectory plain folder) refreshed m ∧
      m.entries.map (fun e => (e.name, e.id, e.entry.sizeBytes)) = [(['a'], 1, 2), (['b'], 2, 1)] := by
  refine ⟨_, .cons ⟨⟨by simp [Operation.Allowed, file], trivial⟩, _, rfl⟩
    (.cons ⟨⟨.inr ⟨_, rfl⟩, ?_⟩, _, rfl⟩ (.nil _)), rfl⟩
  refine ⟨nodup_nil, fun pair hpair entry name he hn _ _ => ?_, fun h => absurd h (by decide)⟩
  obtain rfl := singleton_inj.mp hpair.symm
  obtain rfl := Option.some.inj he
  exact Option.some.inj hn

theorem directory_model_invariant_refreshed : ∃ m : DirectoryModel,
    m.entries.map (fun e => (e.name, e.id, e.entry.sizeBytes)) = [(['a'], 1, 2), (['b'], 2, 1)] ∧
      (m.entries.map (·.name)).Nodup ∧ ((m.indexOfId 2).1 = some 1 ↔ ∃ e, m.entries[1]? = some e ∧ e.id = 2) := by
  obtain ⟨m, hrun, hentries⟩ := run_refreshed
  obtain ⟨hnames, -, -, -, -, -, hid, -⟩ := directory_model_invariant plain folder refreshed m hrun
  exact ⟨m, hentries, hnames, hid 2 1⟩

def renamed : List Operation :=
  [.replaceListing folder [file 'b' 1, file 'a' 1], .applyItemsRefreshed [⟨pathOf 'a', some (file 'b' 2)⟩]]

theorem renamed_over_other : ∃ m, Run (Step (fun m op => op.Allowed plain m) plain) (forDirectory plain folder)
    renamed m ∧ m.entries.map (fun e => (e.name, e.id)) = [(['b'], 2), (['b'], 1)] ∧
      ¬(m.entries.map (·.name)).Nodup := by
  refine ⟨_, .cons ⟨by simp [Operation.Allowed, file], _, rfl⟩ (.cons ⟨.inr ⟨_, rfl⟩, _, rfl⟩ (.nil _)), rfl, ?_⟩
  exact fun h => absurd (nodup_cons.mp h).1 (not_not.mpr mem_cons_self)

end Sample

end DirectoryModel

end TensorDE.Files
