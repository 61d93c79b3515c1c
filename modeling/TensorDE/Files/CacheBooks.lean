import TensorDE.Files.Cache

set_option linter.dupNamespace false

namespace TensorDE.Files

open Maps Recency List

section Normalize

variable {names : List OsStr}

/-- A parent component stands at the front at most. -/
def Normalized (names : List OsStr) : Prop := ∀ name ∈ names.tail, name ≠ Path.dotDot

theorem Normalized.component (h : Normalized names) (component : OsStr) :
    Normalized (normalizeComponent names component) := by
  unfold normalizeComponent
  split
  · split
    · intro name hname
      cases hname
    · intro name hname
      rw [tail_dropLast] at hname
      exact h name (mem_of_mem_dropLast hname)
  · rename_i hne
    intro name hname
    cases names with
    | nil => cases hname
    | cons first rest =>
      obtain hmem | hmem := mem_append.mp hname
      · exact h name hmem
      · exact mem_singleton.mp hmem ▸ hne

theorem normalized_foldl (components : List OsStr) (h : Normalized names) :
    Normalized (components.foldl normalizeComponent names) := by
  induction components generalizing names with
  | nil => exact h
  | cons component components ih => exact ih (h.component component)

theorem foldl_plain {names later : List OsStr} (h : ∀ name ∈ later, name ≠ Path.dotDot) :
    later.foldl normalizeComponent names = names ++ later := by
  induction later generalizing names with
  | nil => exact (append_nil _).symm
  | cons name later ih => grind [normalizeComponent]

theorem Normalized.foldl_self (h : Normalized names) : names.foldl normalizeComponent [] = names := by
  cases names with
  | nil => rfl
  | cons first rest =>
    have hfirst : normalizeComponent [] first = [first] := by
      unfold normalizeComponent
      split <;> rfl
    have hrest : ∀ name ∈ rest, name ≠ Path.dotDot := h
    rw [foldl_cons, hfirst, foldl_plain hrest]
    rfl

theorem normalizeCachePath_idem (path : Path) :
    normalizeCachePath (normalizeCachePath path) = normalizeCachePath path := by
  have hnormal : Normalized (path.parts.foldl normalizeComponent []) := by
    apply normalized_foldl
    intro name hname
    cases hname
  rw [normalizeCachePath, normalizeCachePath, hnormal.foldl_self]

end Normalize

namespace DirectoryCache

variable {c : DirectoryCache} {key : Path}

abbrev entryTotal (m : Map Path DirectoryCacheSnapshot) : Nat := total DirectoryCacheSnapshot.entryCount m

/-- Each queue lists the keys of its map, the counter is true, and no directory is in both maps. -/
structure Books (c : DirectoryCache) : Prop where
  listed : Listed c.lru c.entriesByPath
  counted : c.cachedEntries = entryTotal c.entriesByPath
  skipped : Listed c.skippedLargeLru c.skippedLargeByPath
  apart : ∀ key, (c.entriesByPath.find key).isSome → c.skippedLargeByPath.find key = none
  room : 0 < c.limits.maxDirs

structure Bounded (c : DirectoryCache) : Prop where
  directories : c.len ≤ c.limits.maxDirs
  entries : c.cachedEntries ≤ c.limits.maxEntries

theorem overLimits_iff : c.overLimits = false ↔ c.Bounded := by
  rw [overLimits, Bool.or_eq_false_iff, decide_eq_false_iff_not, decide_eq_false_iff_not, not_lt, not_lt]
  exact ⟨fun h => ⟨h.1, h.2⟩, fun h => ⟨h.1, h.2⟩⟩

theorem len_eq (h : Listed c.lru c.entriesByPath) : c.len = c.lru.length := h.length_keys

section Remove

theorem removeNormalized_eq (h : c.cachedEntries = entryTotal c.entriesByPath) (key : Path) :
    (c.removeNormalized key).2 = { c with
      lru := forget key c.lru
      entriesByPath := c.entriesByPath.erase key
      cachedEntries := entryTotal (c.entriesByPath.erase key) } := by
  grind [removeNormalized, erase_absent, total_erase]

theorem Books.erased (h : c.Books) (key : Path) : (c.removeNormalized key).2.Books := by
  rw [removeNormalized_eq h.counted]
  refine ⟨h.listed.erase key, rfl, h.skipped, fun k hk => ?_, h.room⟩
  grind -linarith [Map.find_erase, h.apart]

theorem Bounded.erased (hb : c.Bounded) (h : c.Books) (key : Path) : (c.removeNormalized key).2.Bounded := by
  have hlen : (c.removeNormalized key).2.len ≤ c.len := by
    rw [len_eq (h.erased key).listed, len_eq h.listed, removeNormalized_eq h.counted]
    exact length_filter_le _ _
  have hcount : (c.removeNormalized key).2.cachedEntries ≤ c.cachedEntries := by
    rw [removeNormalized_eq h.counted, h.counted]
    exact total_erase_le DirectoryCacheSnapshot.entryCount c.entriesByPath key
  have hlimits : (c.removeNormalized key).2.limits = c.limits := by rw [removeNormalized_eq h.counted]
  exact ⟨hlimits ▸ hlen.trans hb.directories, hlimits ▸ hcount.trans hb.entries⟩

theorem Books.unskipped (h : c.Books) (key : Path) : (c.removeSkippedLargeNormalized key).2.Books := by
  refine ⟨h.listed, h.counted, h.skipped.erase key, fun k hk => ?_, h.room⟩
  have hnone := h.apart k hk
  change (c.skippedLargeByPath.erase key).find k = none
  rw [Map.find_erase, hnone, ite_self]

end Remove

section Skip

/-- What the trimming of the record of large directories leaves as it is, and what it keeps of the record. -/
structure Trimmed (c d : DirectoryCache) : Prop where
  limits : d.limits = c.limits
  cachedEntries : d.cachedEntries = c.cachedEntries
  entriesByPath : d.entriesByPath = c.entriesByPath
  lru : d.lru = c.lru
  listed : Listed d.skippedLargeLru d.skippedLargeByPath
  fewer : ∀ key, (d.skippedLargeByPath.find key).isSome → (c.skippedLargeByPath.find key).isSome
  bounded : d.skippedLargeLru.length ≤ d.limits.maxDirs

theorem trimSkipped_trimmed {queue : List Path} (h : Listed queue c.skippedLargeByPath) :
    Trimmed c (c.trimSkipped queue) := by
  induction queue generalizing c with
  | nil => exact ⟨rfl, rfl, rfl, rfl, h, fun _ => id, Nat.zero_le _⟩
  | cons path rest ih =>
    rw [trimSkipped]
    split
    · obtain ⟨hlimits, hcached, hentries, hlru, hlisted, hfewer, hbounded⟩ :=
        ih (c := { c with skippedLargeByPath := c.skippedLargeByPath.erase path }) h.pop
      refine ⟨hlimits, hcached, hentries, hlru, hlisted, fun key hkey => ?_, hbounded⟩
      grind -linarith [Map.find_erase]
    · rename_i hroom
      exact ⟨rfl, rfl, rfl, rfl, h, fun _ => id, Nat.le_of_not_lt hroom⟩

theorem Books.recorded (h : c.Books) (hkey : c.entriesByPath.find key = none) (entryCount : Nat) :
    (c.recordSkippedLargeNormalized key entryCount).Books ∧
      (c.recordSkippedLargeNormalized key entryCount).limits = c.limits ∧
      (c.recordSkippedLargeNormalized key entryCount).cachedEntries = c.cachedEntries ∧
      (c.recordSkippedLargeNormalized key entryCount).entriesByPath = c.entriesByPath ∧
      (c.recordSkippedLargeNormalized key entryCount).lru = c.lru := by
  obtain ⟨hlimits, hcached, hentries, hlru, hlisted, hfewer, -⟩ :=
    trimSkipped_trimmed (c := { c with
      clock := c.clock + 1
      skippedLargeByPath := c.skippedLargeByPath.insert key ⟨key, entryCount, c.clock + 1⟩ })
      (h.skipped.put key ⟨key, entryCount, c.clock + 1⟩)
  refine ⟨⟨?_, ?_, hlisted, fun k hk => ?_, ?_⟩, hlimits, hcached, hentries, hlru⟩
  · rw [recordSkippedLargeNormalized, hlru, hentries]
    exact h.listed
  · grind [recordSkippedLargeNormalized, h.counted]
  · rw [recordSkippedLargeNormalized, hentries] at hk
    rw [Option.eq_none_iff_forall_ne_some]
    intro summary hsummary
    have hsome := hfewer k (Option.isSome_of_eq_some hsummary)
    grind -linarith [Map.find_insert, h.apart]
  · rw [recordSkippedLargeNormalized, hlimits]
    exact h.room

end Skip

section Evict

/-- What the eviction leaves: it takes directories from the front of the queue only, and none where the newest alone
is in the queue and fits. -/
structure Evicted (queue : List Path) (c d : DirectoryCache) : Prop where
  limits : d.limits = c.limits
  skippedLargeLru : d.skippedLargeLru = c.skippedLargeLru
  skippedLargeByPath : d.skippedLargeByPath = c.skippedLargeByPath
  listed : Listed d.lru d.entriesByPath
  counted : d.cachedEntries = entryTotal d.entriesByPath
  bounded : d.Bounded
  suffix : d.lru <:+ queue
  kept : ∀ key ∈ d.lru, d.entriesByPath.find key = c.entriesByPath.find key
  newest : ∀ key s, queue.getLast? = some key → c.entriesByPath.find key = some s →
    s.entryCount ≤ c.limits.maxEntries → key ∈ d.lru

theorem evict_eq (h : c.cachedEntries = entryTotal c.entriesByPath) {path : Path}
    (hsome : (c.entriesByPath.find path).isSome) : c.evict path = { c with
      entriesByPath := c.entriesByPath.erase path
      cachedEntries := entryTotal (c.entriesByPath.erase path)
      stats := { c.stats with evictedDirectories := c.stats.evictedDirectories + 1 } } := by
  grind [total_erase, evict]

theorem bounded_alone (h : Listed [key] c.entriesByPath) (hcounted : c.cachedEntries = entryTotal c.entriesByPath)
    (hroom : 0 < c.limits.maxDirs) {s : DirectoryCacheSnapshot} (hfind : c.entriesByPath.find key = some s)
    (hfits : s.entryCount ≤ c.limits.maxEntries) : c.Bounded := by
  have hrest : total DirectoryCacheSnapshot.entryCount (c.entriesByPath.erase key) = 0 := total_listed_nil _ h.pop
  have htotal := total_erase DirectoryCacheSnapshot.entryCount hfind
  refine ⟨?_, ?_⟩
  · rw [len, h.length_keys]
    exact hroom
  grind

theorem evictFrom_evicted {queue : List Path} (h : Listed queue c.entriesByPath)
    (hcounted : c.cachedEntries = entryTotal c.entriesByPath) (hroom : 0 < c.limits.maxDirs) :
    Evicted queue c (c.evictFrom queue) := by
  induction queue generalizing c with
  | nil =>
    have hbounded : c.Bounded := by
      refine ⟨?_, ?_⟩
      · grind [len, h.length_keys]
      · grind [total_listed_nil]
    exact ⟨rfl, rfl, rfl, h, hcounted, ⟨hbounded.1, hbounded.2⟩, suffix_refl _, fun _ _ => rfl,
      fun key s hlast => by cases hlast⟩
  | cons path rest ih =>
    rw [evictFrom]
    split
    · rename_i hover
      have hevict := evict_eq hcounted ((h.mem_iff path).mp mem_cons_self)
      have hrest : Evicted rest (c.evict path) ((c.evict path).evictFrom rest) := by
        apply ih
        · rw [hevict]
          exact h.pop
        · rw [hevict]
        · rw [hevict]
          exact hroom
      have hfind : ∀ k, k ≠ path → (c.evict path).entriesByPath.find k = c.entriesByPath.find k := by
        intro k hk
        rw [hevict, Map.find_erase, if_neg hk]
      have hnot : path ∉ rest := (nodup_cons.mp h.nodup).1
      refine ⟨hrest.limits.trans ?_, hrest.skippedLargeLru.trans ?_, hrest.skippedLargeByPath.trans ?_, hrest.listed,
        hrest.counted, hrest.bounded, hrest.suffix.trans (suffix_cons path rest), fun k hk => ?_,
        fun key s hlast hs hfits => ?_⟩
      · rw [hevict]
      · rw [hevict]
      · rw [hevict]
      · grind [hrest.kept, hrest.suffix.subset]
      · cases hshape : rest with
        | nil =>
          -- The directory is alone, so nothing was over the limits.
          subst hshape
          obtain rfl : path = key := Option.some.inj hlast
          rw [overLimits_iff.mpr (bounded_alone h hcounted hroom hs hfits)] at hover
          cases hover
        | cons next later => grind [hrest.newest]
    · rename_i hfits
      have hbounded : c.Bounded := overLimits_iff.mp (Bool.eq_false_iff.mpr hfits)
      exact ⟨rfl, rfl, rfl, h, hcounted, ⟨hbounded.1, hbounded.2⟩, suffix_refl _, fun _ _ => rfl,
        fun key s hlast _ _ => mem_of_getLast? hlast⟩

end Evict

/-- The operations on the cache. An update gives the new entries of a directory, or gives up. -/
inductive Call where
  | get (path : Path)
  | getFresh (path : Path)
  | insertFresh (path : Path) (entries : List EntryData)
  | update (path : Path) (update : Path → List EntryData → Option (List EntryData))
  | markStale (path : Path)
  | recordUncachedDirectory (path : Path) (entryCount : Nat)
  | remove (path : Path)

variable (fingerprints : Fingerprints)

def serve (c : DirectoryCache) : Call → DirectoryCache
  | .get path => (c.get path).2
  | .getFresh path => (c.getFresh fingerprints path).2
  | .insertFresh path entries => (c.insertFresh fingerprints path entries).2
  | .update path update => (c.updateFreshEntries fingerprints path update).2
  | .markStale path => (c.markStale path).2
  | .recordUncachedDirectory path entryCount => (c.recordUncachedDirectory path entryCount).2
  | .remove path => (c.remove path).2

/-- The directory that a call uses: one that a lookup finds, or that entries are stored for. -/
def used (c : DirectoryCache) : Call → List Path
  | .get path | .getFresh path => if (c.get path).1.isSome then [normalizeCachePath path] else []
  | .insertFresh path entries => if (c.insertFresh fingerprints path entries).1.isSome then [normalizeCachePath path] else []
  | .update path update => if (c.updateFreshEntries fingerprints path update).1 then [normalizeCachePath path] else []
  | .markStale _ | .recordUncachedDirectory _ _ | .remove _ => []

def run (c : DirectoryCache) : List (Fingerprints × Call) → DirectoryCache
  | [] => c
  | (fingerprints, call) :: calls => (c.serve fingerprints call).run calls

def uses (c : DirectoryCache) : List (Fingerprints × Call) → List Path
  | [] => []
  | (fingerprints, call) :: calls => c.used fingerprints call ++ (c.serve fingerprints call).uses calls

section Steps

variable {fingerprints : Fingerprints} {path : Path} {past : List Path}

/-- What holds of the cache after every call; the queue is in the order of last use, as `dedup` keeps the last of each. -/
structure Kept (limits : DirectoryCacheLimits) (past : List Path) (c : DirectoryCache) : Prop where
  limits : c.limits = limits
  books : c.Books
  bounded : c.Bounded
  ordered : c.lru.Sublist past.dedup

variable {limits : DirectoryCacheLimits}

section

variable (h : Kept limits past c)
include h

theorem Kept.stats (stats : DirectoryCacheStats) : Kept limits past { c with stats } :=
  ⟨h.limits, ⟨h.books.listed, h.books.counted, h.books.skipped, h.books.apart, h.books.room⟩,
    ⟨h.bounded.directories, h.bounded.entries⟩, h.ordered⟩

theorem Kept.touched (hkey : (c.entriesByPath.find key).isSome) : Kept limits (past ++ [key]) (c.touch key) :=
  ⟨h.limits, ⟨h.books.listed.touch hkey, h.books.counted, h.books.skipped, h.books.apart, h.books.room⟩,
    ⟨h.bounded.directories, h.bounded.entries⟩, sublist_touch key h.ordered⟩

theorem Kept.erased (key : Path) : Kept limits past (c.removeNormalized key).2 := by
  refine ⟨?_, h.books.erased key, h.bounded.erased h.books key, ?_⟩
  · rw [removeNormalized_eq h.books.counted]
    exact h.limits
  · rw [removeNormalized_eq h.books.counted]
    exact sublist_forget key h.ordered

theorem Kept.unskipped (key : Path) : Kept limits past (c.removeSkippedLargeNormalized key).2 :=
  ⟨h.limits, h.books.unskipped key, ⟨h.bounded.directories, h.bounded.entries⟩, h.ordered⟩

theorem Kept.skipLarge (key : Path) (entryCount : Nat) : Kept limits past (c.skipLarge key entryCount) := by
  have herased := h.erased key
  have hnone : (c.removeNormalized key).2.entriesByPath.find key = none := by
    rw [removeNormalized_eq h.books.counted, Map.find_erase, if_pos rfl]
  obtain ⟨hbooks, hlimits, hcached, hentries, hlru⟩ := herased.books.recorded hnone entryCount
  have hkept : Kept limits past ((c.removeNormalized key).2.recordSkippedLargeNormalized key entryCount) := by
    refine ⟨hlimits.trans herased.limits, hbooks, ⟨?_, ?_⟩, hlru ▸ herased.ordered⟩
    · grind [len, herased.bounded.directories]
    · grind [herased.bounded.entries]
  exact hkept.stats _

end

def putEntries (c : DirectoryCache) (key : Path) (s : DirectoryCacheSnapshot) (queue : List Path)
    (m : Map Path DirectoryCacheSnapshot) (count : Nat) : DirectoryCache :=
  { c with
    clock := c.clock + 1
    lru := queue
    cachedEntries := count
    entriesByPath := m.insert key s
    skippedLargeLru := forget key c.skippedLargeLru
    skippedLargeByPath := c.skippedLargeByPath.erase key }

/-- Entries that fit are stored, and the eviction that follows does not reach them. -/
theorem Kept.stored (h : Kept limits past c) {queue : List Path} {m : Map Path DirectoryCacheSnapshot}
    {s : DirectoryCacheSnapshot} {count : Nat} (hlisted : Listed queue m) (hordered : queue.Sublist past.dedup)
    (hsame : ∀ k, k ≠ key → m.find k = c.entriesByPath.find k) (hcounted : count = entryTotal (m.insert key s))
    (hfits : s.entryCount ≤ limits.maxEntries) :
    Kept limits (past ++ [key]) ((c.putEntries key s queue m count).touch key).evictOldest ∧
      ((c.putEntries key s queue m count).touch key).evictOldest.entriesByPath.find key = some s := by
  have hput : Listed (Recency.touch key queue) (m.insert key s) := hlisted.put key s
  have hevicted : Evicted (Recency.touch key queue) ((c.putEntries key s queue m count).touch key)
      ((c.putEntries key s queue m count).touch key).evictOldest :=
    evictFrom_evicted hput hcounted h.books.room
  have hfind : (m.insert key s).find key = some s := by rw [Map.find_insert, if_pos rfl]
  have hnewest := hevicted.newest key s (by simp [Recency.touch]) hfind (h.limits ▸ hfits)
  refine ⟨⟨hevicted.limits.trans h.limits, ⟨hevicted.listed, hevicted.counted, ?_, fun k hk => ?_, ?_⟩,
    hevicted.bounded, hevicted.suffix.sublist.trans (sublist_touch key hordered)⟩, ?_⟩
  · rw [hevicted.skippedLargeLru, hevicted.skippedLargeByPath]
    exact h.books.skipped.erase key
  · rw [hevicted.skippedLargeByPath]
    have hmem := (hevicted.listed.mem_iff k).mpr hk
    rw [hevicted.kept k hmem] at hk
    change ((m.insert key s).find k).isSome at hk
    change (c.skippedLargeByPath.erase key).find k = none
    grind -linarith [Map.find_erase, Map.find_insert, h.books.apart]
  · rw [hevicted.limits]
    exact h.books.room
  · rw [hevicted.kept key hnewest]
    exact hfind

theorem fits_of_canStore (hlimits : c.limits = limits) {n : Nat} (h : c.canStoreEntryCount n) : n ≤ limits.maxEntries := by
  grind [canStoreEntryCount]

theorem insertFresh_eq (fingerprints : Fingerprints) (hcounted : c.cachedEntries = entryTotal c.entriesByPath)
    {entries : List EntryData} (hstore : c.canStoreEntryCount entries.length) (hkey : normalizeCachePath path = key) :
    c.insertFresh fingerprints path entries = (some ⟨key, entries, c.clock + 1, fingerprints key⟩,
      ((c.putEntries key ⟨key, entries, c.clock + 1, fingerprints key⟩ (forget key c.lru) (c.entriesByPath.erase key)
        (entryTotal (c.entriesByPath.erase key) + entries.length)).touch key).evictOldest) := by
  grind [insertFresh, removeNormalized_eq, removeSkippedLargeNormalized, DirectoryCacheSnapshot.entryCount, putEntries]

section

variable (h : Kept limits past c)
include h

theorem Kept.insertFresh (fingerprints : Fingerprints) (path : Path) (entries : List EntryData) :
    Kept limits (past ++ c.used fingerprints (.insertFresh path entries)) (c.insertFresh fingerprints path entries).2 ∧
      (c.canStoreEntryCount entries.length → ∃ s, (c.insertFresh fingerprints path entries).1 = some s ∧
        s.entries = entries ∧
        (c.insertFresh fingerprints path entries).2.entriesByPath.find (normalizeCachePath path) = some s) := by
  grind -linarith [insertFresh_eq, h.books.counted, used, Map.find_erase, total_insert, DirectoryCacheSnapshot.entryCount,
      erase_absent, h.stored, h.books.listed.erase, sublist_forget, h.ordered, fits_of_canStore, h.limits,
      DirectoryCache.insertFresh, h.skipLarge]

theorem Kept.replaceFresh (fingerprints : Fingerprints) (entries : List EntryData)
    {old : DirectoryCacheSnapshot} (hfind : c.entriesByPath.find key = some old) :
    Kept limits (past ++ if (c.replaceFreshEntries fingerprints key entries old.entryCount).1 then [key] else [])
      (c.replaceFreshEntries fingerprints key entries old.entryCount).2 := by
  by_cases hstore : c.canStoreEntryCount entries.length
  · have hresult : c.replaceFreshEntries fingerprints key entries old.entryCount = (true,
        ((c.putEntries key ⟨key, entries, c.clock + 1, fingerprints key⟩ c.lru c.entriesByPath
          (c.cachedEntries - old.entryCount + entries.length)).touch key).evictOldest) := by
      unfold replaceFreshEntries
      rw [if_pos hstore]
      rfl
    grind -linarith [total_insert, DirectoryCacheSnapshot.entryCount, total_erase, h.books.counted, h.stored, h.books.listed,
        h.ordered, fits_of_canStore, h.limits]
  grind [replaceFreshEntries, h.skipLarge]

theorem Kept.updateFresh (fingerprints : Fingerprints) (path : Path)
    (update : Path → List EntryData → Option (List EntryData)) :
    Kept limits (past ++ c.used fingerprints (.update path update)) (c.updateFreshEntries fingerprints path update).2 := by
  grind [used, updateFreshEntries, h.replaceFresh]

theorem Kept.get (path : Path) :
    Kept limits (past ++ if (c.get path).1.isSome then [normalizeCachePath path] else []) (c.get path).2 := by
  unfold DirectoryCache.get
  cases hfind : c.entriesByPath.find (normalizeCachePath path) with
  | none => grind [h.stats]
  | some snapshot => exact (h.stats _).touched (Option.isSome_of_eq_some hfind)

end

theorem get_normalized (c : DirectoryCache) (path : Path) : c.get (normalizeCachePath path) = c.get path := by
  unfold DirectoryCache.get
  rw [normalizeCachePath_idem]

section

variable (h : Kept limits past c)
include h

theorem Kept.getFresh (fingerprints : Fingerprints) (path : Path) :
    Kept limits (past ++ if (c.get path).1.isSome then [normalizeCachePath path] else [])
      (c.getFresh fingerprints path).2 := by
  have hget := h.get path
  unfold DirectoryCache.getFresh
  rw [get_normalized]
  cases hlookup : c.get path with
  | mk found next =>
    rw [hlookup] at hget
    cases found with
    | none => exact hget
    | some snapshot =>
      simp only
      by_cases hfresh : snapshot.matchesCurrentDirectory fingerprints
      · rw [if_pos hfresh]
        exact hget
      · rw [if_neg hfresh]
        exact (hget.erased (normalizeCachePath path)).stats _

theorem Kept.step (fingerprints : Fingerprints) (call : Call) :
    Kept limits (past ++ c.used fingerprints call) (c.serve fingerprints call) := by
  cases call with
  | get path => exact h.get path
  | getFresh path => exact h.getFresh fingerprints path
  | insertFresh path entries => exact (h.insertFresh fingerprints path entries).1
  | update path update => exact h.updateFresh fingerprints path update
  | markStale path =>
    change Kept limits (past ++ []) (c.markStale path).2
    rw [append_nil, markStale]
    split
    · exact (h.erased _).stats _
    · exact h.erased _
  | recordUncachedDirectory path entryCount =>
    change Kept limits (past ++ []) (c.recordUncachedDirectory path entryCount).2
    grind [recordUncachedDirectory, h.skipLarge]
  | remove path =>
    change Kept limits (past ++ []) (c.remove path).2
    rw [append_nil]
    exact (h.erased _).unskipped _

theorem Kept.run (calls : List (Fingerprints × Call)) : Kept limits (past ++ c.uses calls) (c.run calls) := by
  induction calls generalizing c past with
  | nil =>
    change Kept limits (past ++ []) c
    rwa [append_nil]
  | cons call calls ih =>
    obtain ⟨fingerprints, call⟩ := call
    have hrest := ih (h.step fingerprints call)
    rwa [append_assoc] at hrest

end

theorem kept_withLimits (limits : DirectoryCacheLimits) :
    Kept (withLimits limits).limits [] (withLimits limits) where
  limits := rfl
  books := ⟨.nil, rfl, .nil, fun _ _ => Map.find_empty _, Nat.lt_of_lt_of_le Nat.one_pos (Nat.le_max_right _ _)⟩
  bounded := ⟨Nat.zero_le _, Nat.zero_le _⟩
  ordered := List.Sublist.refl _

end Steps

/-- After every sequence of calls the counter is the number of the cached entries and the limits hold, the queue lists
each cached directory once in the order of last use, and none that is recorded as too large; an insertion that fits
is there after its own eviction. -/
theorem cache_books (limits : DirectoryCacheLimits) (calls : List (Fingerprints × Call)) :
    let c := (withLimits limits).run calls
    c.limits = (withLimits limits).limits ∧
      c.cachedEntries = (c.entriesByPath.values.map DirectoryCacheSnapshot.entryCount).sum ∧
      (c.len ≤ c.limits.maxDirs ∧ c.cachedEntries ≤ c.limits.maxEntries) ∧
      (c.lru.Nodup ∧ (∀ key, key ∈ c.lru ↔ (c.entriesByPath.find key).isSome) ∧
        c.lru.Sublist ((withLimits limits).uses calls).dedup) ∧
      (∀ key, ¬ ((c.entriesByPath.find key).isSome ∧ (c.skippedLargeByPath.find key).isSome)) ∧
      ∀ fingerprints path entries, c.canStoreEntryCount entries.length →
        ∃ s, (c.insertFresh fingerprints path entries).1 = some s ∧ s.entries = entries ∧
          (c.insertFresh fingerprints path entries).2.entriesByPath.find (normalizeCachePath path) = some s := by
  intro c
  have h : Kept (withLimits limits).limits ([] ++ (withLimits limits).uses calls) c :=
    (kept_withLimits limits).run calls
  refine ⟨h.limits, h.books.counted, ⟨h.bounded.directories, h.bounded.entries⟩,
    ⟨h.books.listed.nodup, h.books.listed.mem_iff, h.ordered⟩, fun key hboth => ?_,
    fun fingerprints path entries hstore => ?_⟩
  · grind -linarith [h.books.apart]
  · exact (h.insertFresh fingerprints path entries).2 hstore

end DirectoryCache

end TensorDE.Files
