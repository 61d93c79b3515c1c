import TensorDE.Files.EntryReader
import TensorDE.Files.ModelSignals

set_option linter.dupNamespace false

namespace TensorDE.Files

open Utf8 List

namespace Path

variable {bytes : OsStr}

theorem components_noSlash (h : slash ∉ bytes) :
    components bytes = if bytes = [] ∨ bytes = [dot] then [] else [bytes] := by
  grind [components, splitOn_eq_singleton]

theorem join_noSlash (path : Path) (h : slash ∉ bytes) :
    path.join bytes = ⟨path.rooted, path.parts ++ components bytes⟩ := by
  grind [join, mem_of_mem_head?]

theorem join_fileName (path : Path) (name : FileName) :
    path.join name.bytes = ⟨path.rooted, path.parts ++ [name.bytes]⟩ := by
  grind [path.join_noSlash, name.noSlash, components_noSlash, name.nonempty, name.notDot]

theorem eq_of_join_eq {path : Path} {name : FileName} (h : slash ∉ bytes)
    (hjoin : path.join bytes = path.join name.bytes) : bytes = name.bytes := by
  grind [path.join_noSlash, join_fileName, append_cancel_left_eq, components_noSlash]

end Path

namespace DirEntry

variable {item : DirEntry}

/-- The name is text, and no white space is at either end of it; and there is metadata. -/
structure Clean (item : DirEntry) : Prop where
  text : ∃ text, item.fileName.bytes = encode text ∧ (∀ c, text.head? = some c → ¬isWhitespace c) ∧
    ∀ c, text.getLast? = some c → ¬isWhitespace c
  metadata : item.directoryEntryMetadata.isSome

theorem noSlash_name (item : DirEntry) : Path.slash ∉ encode item.name := by
  intro h
  exact item.fileName.noSlash (ascii_mem_encode_lossy (by decide) (trim_subset _) h)

theorem encode_name_iff : encode item.name = item.fileName.bytes ↔
    ∃ text, item.fileName.bytes = encode text ∧ (∀ c, text.head? = some c → ¬isWhitespace c) ∧
      ∀ c, text.getLast? = some c → ¬isWhitespace c := by
  constructor
  · intro h
    refine ⟨item.name, h.symm, trim_eq_self_iff.mp ?_⟩
    have hname : item.name = trim (lossy item.fileName.bytes) := rfl
    rw [← h, lossy_encode] at hname
    exact hname.symm
  · rintro ⟨text, htext, hends⟩
    rw [name, htext, lossy_encode, trim_eq_self_iff.mpr hends]

end DirEntry

namespace Surroundings

variable {env : Surroundings} {directory : Path} {item : DirEntry} {data : EntryData}

theorem decorateTrashEntry_name (env : Surroundings) (entry : EntryData) (path : Path) :
    (env.decorateTrashEntry entry path).name = entry.name ∧
      (env.decorateTrashEntry entry path).targetPath = entry.targetPath := by
  grind [decorateTrashEntry]

theorem readItem_some (h : env.readItem directory item = some data) :
    data.name = item.name ∧ data.targetPath = none ∧ item.directoryEntryMetadata.isSome := by
  unfold readItem at h
  split at h
  · cases h
  · split at h
    · obtain ⟨metadata, hmetadata, rfl⟩ := Option.map_eq_some_iff.mp h
      grind [env.decorateTrashEntry_name, completeEntryData]
    · obtain ⟨metadata, hmetadata, rfl⟩ := Option.map_eq_some_iff.mp h
      exact ⟨rfl, rfl, Option.isSome_of_eq_some hmetadata⟩

theorem readItem_of_clean (env : Surroundings) (directory : Path) (h : item.Clean) :
    ∃ data, env.readItem directory item = some data := by
  obtain ⟨metadata, hmetadata⟩ := Option.isSome_iff_exists.mp h.metadata
  have hname : item.name ≠ [] := by
    intro hnil
    have hbytes := (DirEntry.encode_name_iff).mpr h.text
    rw [hnil, encode_nil] at hbytes
    exact item.fileName.nonempty hbytes.symm
  unfold readItem
  rw [if_neg hname, hmetadata]
  split
  · exact ⟨_, rfl⟩
  · exact ⟨_, rfl⟩

end Surroundings

namespace DirectoryModel

variable {env : Surroundings} {directory : Path} {items : List DirEntry} {item : DirEntry}
  {m shown : DirectoryModel}

/-- The model of a pane after the batches of a listing: the first replaces what was shown, the others are added. -/
def showBatches (places : Places) (m : DirectoryModel) (directory : Path) :
    List (List EntryData) → Option DirectoryModel
  | [] => some (m.clearForDirectory places directory).2
  | batch :: batches =>
    batches.foldlM (fun m entries => (m.applyItemsAdded entries).map Prod.snd)
      (m.replaceListing places directory batch).2

structure Shows (env : Surroundings) (directory : Path) (m : DirectoryModel) (item : DirEntry) (i : Nat) : Prop where
  entry : ∃ e data, m.entries[i]? = some e ∧ env.readItem directory item = some data ∧
    e.entry.unmeasured = data.unmeasured ∧ m.pathForEntry e = item.path directory
  found : (m.indexOfPath env.places (item.path directory)).1 = some i

def OneToOne (env : Surroundings) (directory : Path) (items : List DirEntry) (m : DirectoryModel) : Prop :=
  (∀ item ∈ items, ∃! i, m.Shows env directory item i) ∧
    ∀ i < m.entries.length, ∃! item, item ∈ items ∧ m.Shows env directory item i

/-- What showing the batches `batches` of a listing comes to. -/
structure Fills (directory : Path) (batches : List (List EntryData)) (m : DirectoryModel) : Prop where
  stable : m.Stable
  traced : m.Traced
  directory : m.directory = directory
  content : (batches.flatten.map (·.name)).Nodup → m.content.Perm (batches.flatten.map EntryData.unmeasured)

theorem Fills.add {batches : List (List EntryData)} (h : Fills directory batches m) (entries : List EntryData) :
    ∃ r, m.applyItemsAdded entries = some r ∧ Fills directory (batches ++ [entries]) r.2 := by
  obtain ⟨r, hr, hstable⟩ := h.stable.applyItemsAdded entries
  refine ⟨r, hr, hstable, h.traced.applyItemsAdded h.stable hr, (place_directory (h.stable.applyItemsAdded_place hr)).trans h.directory,
    fun hnames => ?_⟩
  have hbefore : (batches.flatten.map (·.name)).Nodup := by
    rw [flatten_append, map_append] at hnames
    exact (nodup_append.mp hnames).1
  have hcontent := h.content hbefore
  refine (h.stable.applyItemsAdded_content h.traced (names_new hnames hcontent) hr).trans ?_
  grind

theorem Fills.addAll {batches : List (List EntryData)} (h : Fills directory batches m) (more : List (List EntryData)) :
    ∃ shown, more.foldlM (fun m entries => (m.applyItemsAdded entries).map Prod.snd) m = some shown ∧
      Fills directory (batches ++ more) shown := by
  induction more generalizing batches m with
  | nil => exact ⟨m, rfl, by rwa [append_nil]⟩
  | cons entries more ih =>
    obtain ⟨r, hr, hadded⟩ := h.add entries
    grind

theorem showBatches_fills (places : Places) (hs : m.Stable) (ht : m.Traced) (directory : Path)
    (batches : List (List EntryData)) :
    ∃ shown, m.showBatches places directory batches = some shown ∧ Fills directory batches shown := by
  cases batches with
  | nil =>
    obtain ⟨hplace, hcontent⟩ := clearForDirectory_content places m directory
    exact ⟨_, rfl, hs.clearForDirectory directory, ht.clearForDirectory directory, hplace,
      fun _ => List.Perm.of_eq hcontent⟩
  | cons batch batches =>
    have hfirst : Fills directory [batch] (m.replaceListing places directory batch).2 :=
      ⟨hs.replaceListing places directory batch, ht.replaceListing hs places directory batch,
        replaceListing_directory _ _ _, fun _ => by simpa using hs.replaceListing_content directory batch⟩
    exact hfirst.addAll batches

section Shows

theorem entryName_path (hplaces : env.places.trashFilesDir ≠ env.places.trashInfoDir) (directory : Path)
    (item : DirEntry) : env.places.entryName directory (item.path directory) = some (lossy item.fileName.bytes) := by
  have hpath : item.path directory = ⟨directory.rooted, directory.parts ++ [item.fileName.bytes]⟩ :=
    directory.join_fileName item.fileName
  have hparent : (item.path directory).parent = some directory := by
    simp [hpath, Path.parent]
  have hname : (item.path directory).fileName = some item.fileName.bytes := by
    simp [hpath, Path.fileName, item.fileName.notDotDot]
  have hentry : env.places.directoryEntryPath directory (item.path directory) = some (item.path directory) := by
    rw [Places.directoryEntryPath, if_neg, if_pos hparent]
    rintro ⟨htrash, hinfo, -⟩
    exact hplaces ((of_decide_eq_true htrash).symm.trans (Option.some.inj (hparent.symm.trans hinfo)))
  rw [Places.entryName, hentry, Option.bind_some, hname, Option.map_some]

variable {e : ModelEntry} {data : EntryData}

theorem read_fields (hdata : env.readItem directory item = some data)
    (hsame : e.entry.unmeasured = data.unmeasured) : e.name = item.name ∧ e.entry.targetPath = none := by
  obtain ⟨hname, htarget, -⟩ := Surroundings.readItem_some hdata
  exact ⟨(congrArg EntryData.name hsame).trans hname, (congrArg EntryData.targetPath hsame).trans htarget⟩

theorem pathForEntry_read (hm : m.directory = directory)
    (hdata : env.readItem directory item = some data) (hsame : e.entry.unmeasured = data.unmeasured) :
    m.pathForEntry e = directory.join (encode item.name) := by
  obtain ⟨hname, htarget⟩ := read_fields hdata hsame
  rw [pathForEntry, htarget, hname, hm]

variable {i : Nat}

theorem Shows.clean (hm : m.directory = directory) (h : m.Shows env directory item i) : item.Clean := by
  obtain ⟨e, data, -, hdata, hsame, hpath⟩ := h.entry
  rw [pathForEntry_read hm hdata hsame] at hpath
  have hname : encode item.name = item.fileName.bytes := Path.eq_of_join_eq item.noSlash_name hpath
  exact ⟨DirEntry.encode_name_iff.mp hname, (Surroundings.readItem_some hdata).2.2⟩

theorem shows_of_clean (hplaces : env.places.trashFilesDir ≠ env.places.trashInfoDir) (hm : m.directory = directory)
    (ht : m.Traced) (hnames : (m.entries.map (·.name)).Nodup) (htargets : ∀ e ∈ m.entries, e.entry.targetPath = none) (he : m.entries[i]? = some e) (hclean : item.Clean)
    (hdata : env.readItem directory item = some data) (hsame : e.entry.unmeasured = data.unmeasured) :
    m.Shows env directory item i := by
  have hbytes : encode item.name = item.fileName.bytes := DirEntry.encode_name_iff.mpr hclean.text
  refine ⟨⟨e, data, he, hdata, hsame, ?_⟩, ?_⟩
  · rw [pathForEntry_read hm hdata hsame, hbytes]
    rfl
  have htarget : m.indexOfTarget (item.path directory) = none := by
    unfold indexOfTarget
    split
    · refine findIdx?_eq_none_iff.mpr fun o ho => ?_
      simp [htargets o ho]
    · rfl
  have hname := (read_fields hdata hsame).1
  rw [indexOfPath, htarget, hm, entryName_path hplaces, ← hbytes, lossy_encode]
  cases hfound : (m.indexOfName item.name).1 with
  | none => exact absurd (mem_map.mpr ⟨e, mem_of_getElem? he, hname⟩) (ht.missed hfound)
  | some j =>
    obtain ⟨o, ho, hother⟩ := ht.found hfound
    have hlt : i < (m.entries.map (·.name)).length := by
      simpa using (List.getElem?_eq_some_iff.mp he).1
    have hboth : (m.entries.map (·.name))[i]? = (m.entries.map (·.name))[j]? := by
      rw [getElem?_map, getElem?_map, he, ho, Option.map_some, Option.map_some, hname, hother]
    rw [(getElem?_inj hlt hnames).mp hboth]

end Shows

section Listing

theorem names_sublist (env : Surroundings) (directory : Path) (hclean : ∀ item ∈ items, item.Clean) :
    (((items.filterMap (env.readItem directory)).map (·.name)).map encode).Sublist
      (items.map fun item => item.fileName.bytes) := by
  induction items with
  | nil => exact .slnil
  | cons item items ih =>
    have hrest := ih fun item hi => hclean item (mem_cons_of_mem _ hi)
    obtain ⟨data, hdata⟩ := env.readItem_of_clean directory (hclean item mem_cons_self)
    have hname : encode data.name = item.fileName.bytes := by
      rw [(Surroundings.readItem_some hdata).1]
      exact DirEntry.encode_name_iff.mpr (hclean item mem_cons_self).text
    grind

variable {batches : List (List EntryData)}

theorem content_origin (hread : batches.flatten.Perm (items.filterMap (env.readItem directory)))
    (hc : m.content.Perm (batches.flatten.map EntryData.unmeasured)) {e : ModelEntry} (he : e ∈ m.entries) :
    ∃ item ∈ items, ∃ data, env.readItem directory item = some data ∧ e.entry.unmeasured = data.unmeasured := by
  have hmem : e.entry.unmeasured ∈ m.content := mem_map_of_mem he
  grind

theorem content_entry (hread : batches.flatten.Perm (items.filterMap (env.readItem directory)))
    (hc : m.content.Perm (batches.flatten.map EntryData.unmeasured)) {data : EntryData} (hitem : item ∈ items)
    (hdata : env.readItem directory item = some data) :
    ∃ (i : Nat) (e : ModelEntry), m.entries[i]? = some e ∧ e.entry.unmeasured = data.unmeasured := by
  have hmem : data ∈ batches.flatten := hread.mem_iff.mpr (mem_filterMap.mpr ⟨item, hitem, hdata⟩)
  obtain ⟨e, he, hsame⟩ := mem_map.mp (hc.mem_iff.mpr (mem_map_of_mem hmem))
  obtain ⟨i, hi⟩ := mem_iff_getElem?.mp he
  exact ⟨i, e, hi, hsame⟩

theorem Fills.oneToOne (h : Fills directory batches m)
    (hread : batches.flatten.Perm (items.filterMap (env.readItem directory)))
    (hitems : (items.map fun item => item.fileName.bytes).Nodup)
    (hplaces : env.places.trashFilesDir ≠ env.places.trashInfoDir) (hclean : ∀ item ∈ items, item.Clean) :
    m.OneToOne env directory items := by
  have hnames : (batches.flatten.map (·.name)).Nodup := by
    rw [(hread.map _).nodup_iff]
    exact List.Nodup.of_map encode ((names_sublist env directory hclean).nodup hitems)
  have hc := h.content hnames
  have hentries : (m.entries.map (·.name)).Nodup := by
    rw [content_names, (hc.map _).nodup_iff, map_map]
    exact hnames
  have htargets : ∀ e ∈ m.entries, e.entry.targetPath = none := by
    intro e he
    obtain ⟨item, -, data, hdata, hsame⟩ := content_origin hread hc he
    exact (read_fields hdata hsame).2
  refine ⟨fun item hitem => ?_, fun i hi => ?_⟩
  · obtain ⟨data, hdata⟩ := env.readItem_of_clean directory (hclean item hitem)
    obtain ⟨i, e, he, hsame⟩ := content_entry hread hc hitem hdata
    have hshows := shows_of_clean hplaces h.directory h.traced hentries htargets he (hclean item hitem) hdata hsame
    exact ⟨i, hshows, fun j hj => Option.some.inj (hj.found.symm.trans hshows.found)⟩
  · have he : m.entries[i]? = some m.entries[i] := getElem?_eq_getElem hi
    obtain ⟨item, hitem, data, hdata, hsame⟩ := content_origin hread hc (getElem_mem hi)
    have hshows := shows_of_clean hplaces h.directory h.traced hentries htargets he (hclean item hitem) hdata hsame
    refine ⟨item, ⟨hitem, hshows⟩, fun other hother => ?_⟩
    obtain ⟨e, -, hei, -, -, hpath⟩ := hshows.entry
    obtain ⟨e', -, hei', -, -, hpath'⟩ := hother.2.entry
    obtain rfl := Option.some.inj (hei.symm.trans hei')
    have hbytes := Path.eq_of_join_eq other.fileName.noSlash (hpath'.symm.trans hpath)
    grind [inj_on_of_nodup_map]

end Listing

theorem trashFilesDir_ne_trashInfoDir (trashHome : Path) (isNetworkPath : Path → Bool) :
    (Places.ofTrashHome trashHome isNetworkPath).trashFilesDir ≠
      (Places.ofTrashHome trashHome isNetworkPath).trashInfoDir := by
  intro h
  have hparts : trashHome.parts ++ [encode "files".toList] = trashHome.parts ++ [encode "info".toList] :=
    congrArg Path.parts h
  exact absurd (append_cancel_left hparts) (by decide)

theorem Reached.traced {places : Places} (h : Reached places m) : m.Traced := by
  obtain ⟨directory, ops, hrun⟩ := h
  refine (hrun.invariant (P := fun m => m.Stable ∧ m.Traced) (Q := fun _ => True) (fun s op t hs _ hstep => ?_)
    ⟨stable_forDirectory directory, traced_forDirectory directory⟩ fun _ _ => trivial).2
  obtain ⟨r, hr, hstable⟩ := hs.1.perform places op
  grind [hs.2.perform]

/-- The entries of a local listing and the files of the directory are in one-to-one correspondence, each entry leads to
its file and is found by the path of it, exactly when all names are text without white space at the ends. -/
theorem listed_entries_name_files (trashHome : Path) (isNetworkPath : Path → Bool) (mimeForName : Str → Bool → String)
    (trashMetadata : Path → Option TrashMetadata) (directory : Path) (items : List (Option DirEntry))
    (hitems : (items.reduceOption.map fun item => item.fileName.bytes).Nodup) (batchSize : Nat)
    (isCancelled : Nat → Bool) (reading : Surroundings.Reading) (hread : Surroundings.readEntryBatchesSyncCancellable
      ⟨.ofTrashHome trashHome isNetworkPath, mimeForName, trashMetadata⟩ directory batchSize isCancelled (some items) =
        some reading)
    (hcompleted : reading.completed) (m : DirectoryModel) (hm : Reached (.ofTrashHome trashHome isNetworkPath) m) :
    ∃ shown, m.showBatches (.ofTrashHome trashHome isNetworkPath) directory reading.batches = some shown ∧
      (shown.OneToOne ⟨.ofTrashHome trashHome isNetworkPath, mimeForName, trashMetadata⟩ directory items.reduceOption ↔
        ∀ item ∈ items.reduceOption, item.Clean) := by
  obtain ⟨shown, hshown, hfills⟩ := showBatches_fills (.ofTrashHome trashHome isNetworkPath) hm.stable hm.traced
    directory reading.batches
  refine ⟨shown, hshown, fun h item hitem => ?_, fun hclean => ?_⟩
  · obtain ⟨i, hshows, -⟩ := h.1 item hitem
    exact hshows.clean hfills.directory
  grind -linarith [Surroundings.readEntryBatches_perm, hfills.oneToOne, trashFilesDir_ne_trashInfoDir]

section Sample

def surroundings : Surroundings :=
  ⟨.ofTrashHome ⟨true, [[0x74]]⟩ fun _ => false, fun _ _ => "text/plain", fun _ => none⟩

/-- A file called `a`. -/
def plainFile : DirEntry where
  fileName := ⟨[0x61], by decide, by decide, by decide, by decide, by decide⟩
  isSymlink := some false
  metadata := some ⟨false, 1, some 0⟩
  target := none

/-- A file called `a` behind a space. -/
def spacedFile : DirEntry where
  fileName := ⟨[0x20, 0x61], by decide, by decide, by decide, by decide, by decide⟩
  isSymlink := some false
  metadata := some ⟨false, 1, some 0⟩
  target := none

theorem clean_plainFile : plainFile.Clean := by
  refine ⟨⟨['a'], rfl, ?_, ?_⟩, rfl⟩
  · rintro c hc
    obtain rfl := Option.some.inj hc
    decide
  · rintro c hc
    obtain rfl := Option.some.inj hc
    decide

theorem listed_entries_name_files_plain : ∃ reading shown,
    surroundings.readEntryBatchesSyncCancellable folder 8 (fun _ => false) (some [some plainFile]) = some reading ∧
      (forDirectory surroundings.places folder).showBatches surroundings.places folder reading.batches = some shown ∧
      shown.OneToOne surroundings folder [plainFile] := by
  obtain ⟨shown, hshown, hiff⟩ := listed_entries_name_files ⟨true, [[0x74]]⟩ (fun _ => false) (fun _ _ => "text/plain")
    (fun _ => none) folder [some plainFile] (nodup_singleton _) 8 (fun _ => false) _ rfl rfl _
    ⟨folder, [], .nil _⟩
  refine ⟨_, shown, rfl, hshown, hiff.mpr fun item hitem => ?_⟩
  obtain rfl := mem_singleton.mp hitem
  exact clean_plainFile

/-- Two files become two entries of one name, and both lead to the first of them. -/
theorem spaced_name_leads_elsewhere : ∃ reading shown,
    surroundings.readEntryBatchesSyncCancellable folder 8 (fun _ => false) (some [some plainFile, some spacedFile]) =
        some reading ∧ reading.completed ∧
      (forDirectory surroundings.places folder).showBatches surroundings.places folder reading.batches = some shown ∧
      shown.entries.map shown.pathForEntry = [pathOf 'a', pathOf 'a'] ∧
      ¬shown.OneToOne surroundings folder [plainFile, spacedFile] := by
  refine ⟨_, _, rfl, rfl, rfl, rfl, fun h => ?_⟩
  obtain ⟨i, hshows, -⟩ := h.1 spacedFile (by simp)
  obtain ⟨text, htext, hfront, -⟩ := (hshows.clean (replaceListing_directory _ _ _)).text
  have hspace : text = [' ', 'a'] := encode_injective (htext.symm.trans rfl)
  exact hfront ' ' (by rw [hspace]; rfl) (by decide)

end Sample

end DirectoryModel

end TensorDE.Files
