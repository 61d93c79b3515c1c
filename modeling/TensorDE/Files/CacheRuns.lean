import TensorDE.Lib.Trace
import TensorDE.Files.CacheDeltas

set_option linter.dupNamespace false

namespace TensorDE.Files

open Maps Catalog Utf8 Trace List

namespace DirectoryCache

variable {c : DirectoryCache} {fingerprints : Fingerprints} {path key : Path} {s : DirectoryCacheSnapshot}

section Find

theorem evictFrom_find {queue : List Path} (h : (c.evictFrom queue).entriesByPath.find key = some s) :
    c.entriesByPath.find key = some s := by
  induction queue generalizing c with
  | nil => exact h
  | cons path rest ih => grind [evictFrom, evict, Map.find_erase]

theorem trimSkipped_entries (queue : List Path) : (c.trimSkipped queue).entriesByPath = c.entriesByPath := by
  induction queue generalizing c with
  | nil => rfl
  | cons path rest ih => grind [trimSkipped]

theorem skipLarge_find (key : Path) (entryCount : Nat) : (c.skipLarge key entryCount).entriesByPath.find key = none := by
  change (trimSkipped _ _).entriesByPath.find key = none
  grind [trimSkipped_entries, removeNormalized, Map.find_erase]

theorem insertFresh_find {entries : List EntryData} (hkey : normalizeCachePath path = key)
    (h : (c.insertFresh fingerprints path entries).2.entriesByPath.find key = some s) : s.entries = entries := by
  unfold insertFresh at h
  rw [hkey] at h
  split at h
  · have hfind := evictFrom_find h
    grind [touch, Map.find_insert]
  · rw [skipLarge_find] at h
    cases h

/-- What an update leaves of the directory are the updated entries, or the old ones where it gave up. -/
theorem updateFreshEntries_find {update : Path → List EntryData → Option (List EntryData)}
    (hkey : normalizeCachePath path = key)
    (h : (c.updateFreshEntries fingerprints path update).2.entriesByPath.find key = some s) :
    ∃ old, c.entriesByPath.find key = some old ∧ s.entries = (update key old.entries).getD old.entries := by
  unfold updateFreshEntries at h
  rw [hkey] at h
  cases hfind : c.entriesByPath.find key with
  | none =>
    simp only [hfind] at h
    cases h
  | some old =>
    refine ⟨old, rfl, ?_⟩
    cases hupdate : update key old.entries with
    | none => grind
    | some entries =>
      simp only [hfind, hupdate] at h
      unfold replaceFreshEntries at h
      split at h
      · have hnew := evictFrom_find h
        grind [touch, removeSkippedLargeNormalized, Map.find_insert]
      · rw [skipLarge_find] at h
        cases h

end Find

end DirectoryCache

section Start

open DirectoryModel

variable {places : Places}

variable {m : DirectoryModel}

theorem installListing_held (hm : m.entries = []) (directory : Path) (entries : List ModelEntry) :
    (m.installListing places directory entries).2.held = entries.map (·.entry) := by
  unfold installListing
  split
  · rename_i hsame
    have hnames := (sameListing_iff.mp hsame).2
    rw [hm, map_nil] at hnames
    have hnone : entries = [] := map_eq_nil_iff.mp hnames.symm
    rw [held, replaceSameListingMetadata]
    rw [hm, hnone]
    rfl
  · rfl

theorem replaceListing_held (hs : m.Stable) (hm : m.entries = []) (directory : Path)
    (listing : List EntryData) : (m.replaceListing places directory listing).2.held.Perm listing := by
  have hassigned := hs.assignListingIdentity directory listing
  grind [hassigned.model, DirectoryModel.replaceListing, installListing_held, sortModelEntries_perm, hassigned.data]

theorem replaceListing_isNetwork (directory : Path) (listing : List EntryData) :
    ((DirectoryModel.new places).replaceListing places directory listing).2.isNetwork = places.isNetworkPath directory := by
  unfold DirectoryModel.replaceListing installListing
  split
  · rename_i hsame
    have hstable : (DirectoryModel.new places).Stable := stable_forDirectory Path.empty
    have hassigned := hstable.assignListingIdentity directory listing
    have hdirectory := (sameListing_iff.mp hsame).1
    rw [hassigned.model] at hdirectory ⊢
    exact congrArg places.isNetworkPath hdirectory
  · rfl

end Start

variable (places : Places)

def Delta.toModel (m : DirectoryModel) : Delta → Option DirectoryModel
  | .added entries => (m.applyItemsAdded entries).map Prod.snd
  | .deleted paths => some (m.applyItemsDeleted places paths).2
  | .refreshed pairs => (m.applyItemsRefreshed places pairs).map Prod.snd

def Delta.toCache (directory : Path) (fingerprints : Fingerprints) (c : DirectoryCache) :
    Delta → DirectoryCache
  | .added entries => (c.applyItemsAdded places fingerprints directory entries).2
  | .deleted paths => (c.applyItemsDeleted places fingerprints directory paths).2
  | .refreshed pairs => (c.applyItemsRefreshed places fingerprints directory pairs).2

inductive DeltaStep (places : Places) (directory : Path) :
    DirectoryCache × DirectoryModel → Fingerprints × Delta → DirectoryCache × DirectoryModel → Prop where
  | applies {c : DirectoryCache} {m m' : DirectoryModel} {fingerprints : Fingerprints} {delta : Delta} :
      delta.toModel places m = some m' →
      DeltaStep places directory (c, m) (fingerprints, delta) (delta.toCache places directory fingerprints c, m')

/-- A step with an event that the model and the cache take in the same way. -/
def SparingStep (directory : Path) (s : DirectoryCache × DirectoryModel) (event : Fingerprints × Delta)
    (t : DirectoryCache × DirectoryModel) : Prop :=
  DeltaStep places directory s event t ∧ event.2.Spares places directory s.2.held

def listed (directory : Path) (fingerprints : Fingerprints) (c : DirectoryCache) (listing : List EntryData) :
    DirectoryCache × DirectoryModel :=
  ((c.insertFresh fingerprints directory listing).2, ((DirectoryModel.new places).replaceListing places directory listing).2)

def Agree (directory : Path) (s : DirectoryCache × DirectoryModel) : Prop :=
  ∀ snapshot, s.1.entriesByPath.find directory = some snapshot → snapshot.entries.Perm s.2.held

def InOrder (directory : Path) (s : DirectoryCache × DirectoryModel) : Prop :=
  ∀ snapshot, s.1.entriesByPath.find directory = some snapshot →
    CacheSorted (places.isTrashFilesDir directory) snapshot.entries

section Steps

variable {places : Places} {directory : Path} {fingerprints : Fingerprints} {c : DirectoryCache}
  {m m' : DirectoryModel} {delta : Delta}

/-- What an event makes of the cached entries. -/
def Delta.toEntries (places : Places) (directory : Path) (es : List EntryData) : Delta → List EntryData
  | .added entries => if entries = [] then es else addEntries (places.isTrashFilesDir directory) entries es
  | .deleted paths => deletePaths places paths directory es
  | .refreshed pairs => refreshPairs places (places.isTrashFilesDir directory) pairs directory es

theorem toCache_find (hdir : normalizeCachePath directory = directory) {snapshot : DirectoryCacheSnapshot}
    (h : (delta.toCache places directory fingerprints c).entriesByPath.find directory = some snapshot) :
    ∃ old, c.entriesByPath.find directory = some old ∧
      snapshot.entries = delta.toEntries places directory old.entries := by
  cases delta with
  | added entries =>
    grind [Delta.toCache, DirectoryCache.applyItemsAdded, Delta.toEntries, DirectoryCache.updateFreshEntries_find]
  | deleted paths => exact DirectoryCache.updateFreshEntries_find hdir h
  | refreshed pairs => exact DirectoryCache.updateFreshEntries_find hdir h

variable {es : List EntryData}

theorem toEntries_sorted (h : CacheSorted (places.isTrashFilesDir directory) es) :
    CacheSorted (places.isTrashFilesDir directory) (delta.toEntries places directory es) := by
  cases delta with
  | added entries => grind [Delta.toEntries, cacheSorted_addEntries]
  | deleted paths => exact cacheSorted_deletePaths h paths
  | refreshed pairs => exact cacheSorted_refreshPairs pairs

structure Shown (directory : Path) (m : DirectoryModel) : Prop where
  stable : m.Stable
  traced : m.Traced
  directory : m.directory = directory
  isNetwork : m.isNetwork = false

theorem shown_toModel (h : Shown directory m) (hm : delta.toModel places m = some m') : Shown directory m' := by
  have hplace : m'.place = m.place → m'.directory = directory ∧ m'.isNetwork = false := fun hsame =>
    ⟨(DirectoryModel.place_directory hsame).trans h.directory, (DirectoryModel.place_isNetwork hsame).trans h.isNetwork⟩
  cases delta with
  | added entries =>
    obtain ⟨r, hr, rfl⟩ := Option.map_eq_some_iff.mp hm
    obtain ⟨hdirectory, hnetwork⟩ := hplace (h.stable.applyItemsAdded_place hr)
    obtain ⟨r', hr', hstable⟩ := h.stable.applyItemsAdded entries
    obtain rfl := Option.some.inj (hr.symm.trans hr')
    exact ⟨hstable, h.traced.applyItemsAdded h.stable hr, hdirectory, hnetwork⟩
  | deleted paths =>
    obtain rfl := Option.some.inj hm
    obtain ⟨hdirectory, hnetwork⟩ := hplace (DirectoryModel.applyItemsDeleted_place places m paths)
    exact ⟨h.stable.applyItemsDeleted places paths, h.traced.applyItemsDeleted places paths, hdirectory, hnetwork⟩
  | refreshed pairs =>
    obtain ⟨r, hr, rfl⟩ := Option.map_eq_some_iff.mp hm
    obtain ⟨hdirectory, hnetwork⟩ := hplace (h.stable.applyItemsRefreshed_place hr)
    obtain ⟨r', hr', hstable⟩ := h.stable.applyItemsRefreshed places pairs
    obtain rfl := Option.some.inj (hr.symm.trans hr')
    exact ⟨hstable, h.traced.applyItemsRefreshed h.stable hr, hdirectory, hnetwork⟩

theorem toModel_total (h : Shown directory m) (places : Places) (delta : Delta) : ∃ m', delta.toModel places m = some m' := by
  cases delta with
  | added entries =>
    obtain ⟨r, hr, -⟩ := h.stable.applyItemsAdded entries
    exact ⟨r.2, by rw [Delta.toModel, hr, Option.map_some]⟩
  | deleted paths => exact ⟨_, rfl⟩
  | refreshed pairs =>
    obtain ⟨r, hr, -⟩ := h.stable.applyItemsRefreshed places pairs
    exact ⟨r.2, by rw [Delta.toModel, hr, Option.map_some]⟩

variable {fs : List EntryData}

theorem straight_perm (h : es.Perm fs) {pair : RefreshPair Path EntryData}
    (hs : Straight places directory es pair) : Straight places directory fs pair := by
  grind [occurs, Straight]

theorem apart_perm (h : es.Perm fs) {p q : RefreshPair Path EntryData}
    (hs : Apart places directory es p q) : Apart places directory fs p q := by
  grind [Plain, occurs_perm, Apart]

theorem foldl_refreshed_perm (pairs : List (RefreshPair Path EntryData)) (h : es.Perm fs) :
    (pairs.foldl (refreshedBy places directory) es).Perm (pairs.foldl (refreshedBy places directory) fs) := by
  induction pairs generalizing es fs with
  | nil => exact h
  | cons pair pairs ih => exact ih (refreshed_perm h)

/-- An event that spares the entries is taken by the model and by the cache in the same way. -/
theorem toEntries_perm (h : Shown directory m) (hspares : delta.Spares places directory m.held) (hes : es.Perm m.held) (hm : delta.toModel places m = some m') :
    (delta.toEntries places directory es).Perm m'.held := by
  have hdirectory := h.directory
  cases delta with
  | added entries =>
    obtain ⟨honce, hfresh⟩ := hspares
    obtain ⟨r, hr, rfl⟩ := Option.map_eq_some_iff.mp hm
    have hmodel := h.stable.applyItemsAdded_puts (fun entry _ => DirectoryModel.traced_iff.mp h.traced entry.name) honce
      hfresh hr
    refine List.Perm.trans ?_ hmodel.symm
    unfold Delta.toEntries
    simp only
    split
    · rename_i hnone
      rw [hnone]
      exact hes
    · refine (addEntries_puts fun entry hentry => ?_).trans (puts_perm hes)
      grind [occurs_perm]
  | deleted paths =>
    obtain rfl := Option.some.inj hm
    have hnames : ∀ name ∈ DirectoryModel.namesAt places m.directory paths, occurs EntryData.name name m.held ≤ 1 := by
      intro name hname
      obtain ⟨path, hpath, hentry⟩ := mem_filterMap.mp hname
      rw [hdirectory] at hentry
      exact (hspares path hpath name hentry).1
    have hmodel := DirectoryModel.applyItemsDeleted_drops h.isNetwork paths
      (fun name _ => DirectoryModel.traced_iff.mp h.traced name) hnames
    rw [hmodel, hdirectory]
    refine (List.Perm.of_eq (deletePaths_drops fun path hpath n hn => ?_)).trans (drops_perm hes)
    rw [occurs_perm hes, occurs_perm hes]
    exact hspares path hpath n hn
  | refreshed pairs =>
    obtain ⟨honce, hstraight, hpairs⟩ := hspares
    obtain ⟨r, hr, rfl⟩ := Option.map_eq_some_iff.mp hm
    have hmodel := h.stable.applyItemsRefreshed_refreshed places h.traced h.isNetwork
      (by rw [hdirectory]; exact honce) (by rw [hdirectory]; exact hpairs) hr
    rw [hdirectory] at hmodel
    refine List.Perm.trans ?_ hmodel.symm
    refine (refreshPairs_refreshed (fun pair hpair n hn => ?_) (fun pair hpair => ?_) ?_).trans
      (foldl_refreshed_perm pairs hes)
    · grind [occurs_perm]
    · exact straight_perm hes.symm (hstraight pair hpair)
    · exact hpairs.imp fun hapart => apart_perm hes.symm hapart

theorem shown_listed (places : Places) (hnet : places.isNetworkPath directory = false) (fingerprints : Fingerprints)
    (c : DirectoryCache) (listing : List EntryData) : Shown directory (listed places directory fingerprints c listing).2 where
  stable := (DirectoryModel.stable_forDirectory Path.empty).replaceListing places directory listing
  traced := (DirectoryModel.traced_forDirectory Path.empty).replaceListing
    (DirectoryModel.stable_forDirectory Path.empty) places directory listing
  directory := DirectoryModel.replaceListing_directory _ directory listing
  isNetwork := (replaceListing_isNetwork directory listing).trans hnet

theorem agree_listed (hdir : normalizeCachePath directory = directory) (listing : List EntryData) :
    Agree directory (listed places directory fingerprints c listing) := by
  intro snapshot hfind
  rw [DirectoryCache.insertFresh_find hdir hfind]
  exact (replaceListing_held (DirectoryModel.stable_forDirectory Path.empty) rfl directory listing).symm

theorem inOrder_listed (hdir : normalizeCachePath directory = directory) {listing : List EntryData}
    (h : CacheSorted (places.isTrashFilesDir directory) listing) :
    InOrder places directory (listed places directory fingerprints c listing) := by
  intro snapshot hfind
  rw [DirectoryCache.insertFresh_find hdir hfind]
  exact h

variable {s t : DirectoryCache × DirectoryModel} {event : Fingerprints × Delta} {events : List (Fingerprints × Delta)}

theorem Agree.step (hdir : normalizeCachePath directory = directory) (hs : Shown directory s.2) (h : Agree directory s)
    (hstep : SparingStep places directory s event t) : Shown directory t.2 ∧ Agree directory t := by
  obtain ⟨⟨hm⟩, hspares⟩ := hstep
  refine ⟨shown_toModel hs hm, fun snapshot hfind => ?_⟩
  obtain ⟨old, hold, hentries⟩ := toCache_find hdir hfind
  rw [hentries]
  exact toEntries_perm hs hspares (h old hold) hm

theorem InOrder.step (hdir : normalizeCachePath directory = directory) (h : InOrder places directory s)
    (hstep : DeltaStep places directory s event t) : InOrder places directory t := by
  obtain ⟨hm⟩ := hstep
  intro snapshot hfind
  obtain ⟨old, hold, hentries⟩ := toCache_find hdir hfind
  rw [hentries]
  exact toEntries_sorted (h old hold)

end Steps

section Runs

variable {places : Places} {directory : Path} {fingerprints : Fingerprints} {c : DirectoryCache} {listing : List EntryData}
  {s t : DirectoryCache × DirectoryModel} {events : List (Fingerprints × Delta)}

theorem run_agrees (hdir : normalizeCachePath directory = directory) (hs : Shown directory s.2) (h : Agree directory s)
    (hrun : Run (SparingStep places directory) s events t) : Agree directory t := by
  induction hrun with
  | nil s => exact h
  | cons hstep _ ih => grind [h.step]

theorem run_inOrder (hdir : normalizeCachePath directory = directory) (h : InOrder places directory s)
    (hrun : Run (DeltaStep places directory) s events t) : InOrder places directory t := by
  induction hrun with
  | nil s => exact h
  | cons hstep _ ih => exact ih (h.step hdir hstep)

theorem run_total (hs : Shown directory s.2) (events : List (Fingerprints × Delta)) :
    ∃ t, Run (DeltaStep places directory) s events t := by
  induction events generalizing s with
  | nil => exact ⟨s, .nil s⟩
  | cons event events ih =>
    obtain ⟨c, m⟩ := s
    obtain ⟨fingerprints, delta⟩ := event
    obtain ⟨m', hm⟩ := toModel_total hs places delta
    obtain ⟨t, hrun⟩ := ih (s := (delta.toCache places directory fingerprints c, m')) (shown_toModel hs hm)
    exact ⟨t, .cons (.applies hm) hrun⟩

/-- A listing of a local directory is shown and cached, and events follow. The model takes them all, the cache keeps
its order, and while each event spares the entries, the cached ones are those of the model. -/
theorem cache_agrees (hdir : normalizeCachePath directory = directory) (hnet : places.isNetworkPath directory = false)
    (fingerprints : Fingerprints) (c : DirectoryCache) (listing : List EntryData) (events : List (Fingerprints × Delta)) :
    (∃ t, Run (DeltaStep places directory) (listed places directory fingerprints c listing) events t) ∧
      (CacheSorted (places.isTrashFilesDir directory) listing →
        ∀ t, Run (DeltaStep places directory) (listed places directory fingerprints c listing) events t →
          InOrder places directory t) ∧
      ∀ t, Run (SparingStep places directory) (listed places directory fingerprints c listing) events t →
        Agree directory t := by
  have hshown := shown_listed places hnet fingerprints c listing
  refine ⟨run_total hshown events, fun hsorted t hrun => ?_, fun t hrun => ?_⟩
  · exact run_inOrder hdir (inOrder_listed hdir hsorted) hrun
  grind [run_agrees, agree_listed]

end Runs

section Files

def localPlaces : Places := ⟨⟨true, [[0x74]]⟩, ⟨true, [[0x69]]⟩, fun _ => false⟩

/-- `/d`. -/
def home : Path := ⟨true, [[0x64]]⟩

def plainFile (name : Str) : EntryData where
  name := name
  nameWidthUnits := name.length
  targetPath := none
  sizeBytes := 0
  modifiedSecs := none
  metadataComplete := true
  mimeType := none
  mimeMagicChecked := true
  trashOriginalPath := none
  trashDeletionTime := none
  isDir := false

/-- Room for two directories of ten entries. -/
def roomy : DirectoryCache := .withLimits ⟨2, 20, 10⟩

/-- The file `" a"` is listed under its trimmed name and is then deleted: the cache trims the name it looks for and finds
the entry, and the model does not. -/
theorem trimmed_name_disagrees : ¬∀ (places : Places) (directory : Path) (fingerprints : Fingerprints) (c : DirectoryCache)
    (listing : List EntryData) (events : List (Fingerprints × Delta)) (t : DirectoryCache × DirectoryModel),
    Run (DeltaStep places directory) (listed places directory fingerprints c listing) events t → Agree directory t := by
  intro h
  let start := listed localPlaces home (fun _ => none) roomy [plainFile ['a']]
  let delta : Delta := .deleted [⟨true, [[0x64], [0x20, 0x61]]⟩]
  have hmodel : (delta.toModel localPlaces start.2).map (·.held) = some [plainFile ['a']] := by decide +kernel
  have hcache : ((delta.toCache localPlaces home (fun _ => none) start.1).entriesByPath.find home).map (·.entries) =
      some [] := by decide +kernel
  obtain ⟨m, hm, hheld⟩ := Option.map_eq_some_iff.mp hmodel
  obtain ⟨snapshot, hfind, hentries⟩ := Option.map_eq_some_iff.mp hcache
  have hrun : Run (DeltaStep localPlaces home) start [(fun _ => none, delta)]
      (delta.toCache localPlaces home (fun _ => none) start.1, m) := .cons (.applies hm) (.nil _)
  have hagree := h _ _ _ _ _ _ _ hrun snapshot hfind
  rw [hentries, hheld] at hagree
  cases hagree.symm.eq_nil

theorem cache_agrees_plain : ∃ t, Agree home t ∧ Run (SparingStep localPlaces home)
    (listed localPlaces home (fun _ => none) roomy [plainFile ['a']])
    [(fun _ => none, .added [plainFile ['b']]), (fun _ => none, .deleted [⟨true, [[0x64], [0x61]]⟩])] t := by
  let start := listed localPlaces home (fun _ => none) roomy [plainFile ['a']]
  let appears : Delta := .added [plainFile ['b']]
  let goes : Delta := .deleted [⟨true, [[0x64], [0x61]]⟩]
  have hadded : (appears.toModel localPlaces start.2).map (·.held) = some [plainFile ['a'], plainFile ['b']] := by
    decide +kernel
  have hheld : start.2.held = [plainFile ['a']] := by decide +kernel
  obtain ⟨m, hm, hboth⟩ := Option.map_eq_some_iff.mp hadded
  have hname : localPlaces.entryName home ⟨true, [[0x64], [0x61]]⟩ = some ['a'] := by decide +kernel
  have hfirst : appears.Spares localPlaces home start.2.held := by
    rw [hheld]
    exact ⟨by decide, pairwise_singleton _ _⟩
  have hsecond : goes.Spares localPlaces home m.held := by
    rw [hboth]
    intro path hpath n hn
    obtain rfl := mem_singleton.mp hpath
    obtain rfl := Option.some.inj (hname.symm.trans hn)
    exact ⟨by decide, .inl (by decide)⟩
  have hrun : Run (SparingStep localPlaces home) start [(fun _ => none, appears), (fun _ => none, goes)]
      (goes.toCache localPlaces home (fun _ => none) (appears.toCache localPlaces home (fun _ => none) start.1),
        (m.applyItemsDeleted localPlaces [⟨true, [[0x64], [0x61]]⟩]).2) :=
    .cons ⟨.applies hm, hfirst⟩ (.cons ⟨.applies rfl, hsecond⟩ (.nil _))
  have hall := @cache_agrees localPlaces home (by decide) rfl (fun _ => none) roomy
    [plainFile ['a']] [(fun _ => none, appears), (fun _ => none, goes)]
  exact ⟨_, hall.2.2 _ hrun, hrun⟩

end Files

end TensorDE.Files
