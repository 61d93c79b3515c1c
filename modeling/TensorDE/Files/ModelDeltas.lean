import TensorDE.Lib.Catalog
import TensorDE.Files.Cache
import TensorDE.Files.ModelContent

set_option linter.dupNamespace false

namespace TensorDE.Files

open Catalog Utf8 ModelEntry List

variable (places : Places)

/-- What one refreshed item does to the entries of a directory, taken by itself. -/
def refreshedBy (directory : Path) (es : List EntryData) (pair : RefreshPair Path EntryData) :
    List EntryData :=
  match pair.entry, places.entryName directory pair.oldPath with
  | some entry, some n =>
    if 0 < occurs EntryData.name n es then replace EntryData.name n entry es else put EntryData.name entry es
  | some entry, none => put EntryData.name entry es
  | none, some n => drop EntryData.name n es
  | none, none => es

section Batch

variable (places : Places) (directory : Path) (es : List EntryData) (pair : RefreshPair Path EntryData)

/-- The names a pair is about: those its old path is looked up under, and that of its entry. -/
def pairNames : List Str :=
  ((places.entryName directory pair.oldPath).toList.flatMap fun n => [n, trim n]) ++ pair.entry.toList.map (·.name)

def Plain : Prop :=
  ∃ entry, pair.entry = some entry ∧ places.entryName directory pair.oldPath = some entry.name ∧
    0 < occurs EntryData.name entry.name es

/-- Two pairs of a batch that do not disturb each other. -/
def Apart (p q : RefreshPair Path EntryData) : Prop :=
  (pairNames places directory p).Disjoint (pairNames places directory q) ∨
    (Plain places directory es p ∧ Plain places directory es q) ∨ (p.entry = none ∧ q.entry = none)

/-- Trimming does not change what the old path of a pair names. -/
def Straight : Prop :=
  ∀ n, places.entryName directory pair.oldPath = some n → trim n = n ∨
    (occurs EntryData.name n es = 0 ∧
      (occurs EntryData.name (trim n) es = 0 ∨ ∃ entry, pair.entry = some entry ∧ entry.name = trim n))

end Batch

inductive Delta where
  | added (entries : List EntryData)
  | deleted (paths : List Path)
  | refreshed (pairs : List (RefreshPair Path EntryData))

/-- The events on a directory that the model and the cache take in the same way: no two entries of the directory share
a name the event is about, no name is trimmed into another, and the items of the event do not disturb each other. -/
def Delta.Spares (directory : Path) (es : List EntryData) : Delta → Prop
  | .added entries => (∀ entry ∈ entries, occurs EntryData.name entry.name es ≤ 1) ∧
      entries.Pairwise fun a b => a.name = b.name → 0 < occurs EntryData.name a.name es
  | .deleted paths => ∀ path ∈ paths, ∀ n, places.entryName directory path = some n →
      occurs EntryData.name n es ≤ 1 ∧
        (trim n = n ∨ (occurs EntryData.name n es = 0 ∧ occurs EntryData.name (trim n) es = 0))
  | .refreshed pairs => (∀ pair ∈ pairs, ∀ n ∈ pairNames places directory pair, occurs EntryData.name n es ≤ 1) ∧
      (∀ pair ∈ pairs, Straight places directory es pair) ∧ pairs.Pairwise (Apart places directory es)

section Batch

variable {places : Places} {directory : Path} {es : List EntryData} {p q : RefreshPair Path EntryData}

theorem oldName_mem {n : Str} (h : places.entryName directory p.oldPath = some n) : n ∈ pairNames places directory p := by
  simp [pairNames, h]

theorem trim_mem {n : Str} (h : places.entryName directory p.oldPath = some n) :
    trim n ∈ pairNames places directory p := by
  simp [pairNames, h]

theorem newName_mem {entry : EntryData} (h : p.entry = some entry) : entry.name ∈ pairNames places directory p := by
  simp [pairNames, h]

section

variable (h : Apart places directory es p q)
include h

theorem Apart.symm : Apart places directory es q p := by
  obtain h | h | h := h
  · exact .inl fun n hq hp => h hp hq
  · exact .inr (.inl ⟨h.2, h.1⟩)
  · exact .inr (.inr ⟨h.2, h.1⟩)

theorem Apart.disjoint {entry : EntryData} (hp : p.entry = some entry)
    (hplain : ¬ Plain places directory es p) : (pairNames places directory p).Disjoint (pairNames places directory q) := by
  obtain h | h | h := h
  · exact h
  · exact absurd h.1 hplain
  · rw [hp] at h
    cases h.1

theorem Apart.disjoint_removal {entry : EntryData} (hp : p.entry = none)
    (hq : q.entry = some entry) : (pairNames places directory p).Disjoint (pairNames places directory q) := by
  obtain h | h | h := h
  · exact h
  · obtain ⟨_, hsome, -⟩ := h.1
    rw [hp] at hsome
    cases hsome
  · rw [hq] at h
    cases h.2

end

end Batch

namespace DirectoryModel

open IndexCache Patch

variable {places : Places} {m m' : DirectoryModel}

def held (m : DirectoryModel) : List EntryData := m.entries.map (·.entry)

section Lookup

variable {name : Str} {i : Nat}

theorem occurs_held (m : DirectoryModel) (name : Str) :
    occurs EntryData.name name m.held = occurs ModelEntry.name name m.entries := by
  rw [held, occurs, countP_map]
  rfl

theorem TracedAt.found (h : m.TracedAt name) (hi : (m.indexOfName name).1 = some i) :
    ∃ e, m.entries[i]? = some e ∧ e.name = name :=
  at_map_some.mp (h.lookup.1 i hi)

theorem TracedAt.missed (h : m.TracedAt name) (hi : (m.indexOfName name).1 = none) :
    occurs EntryData.name name m.held = 0 := by
  rw [occurs_held, occurs_eq_zero]
  intro e he hname
  obtain ⟨j, hget⟩ := mem_iff_getElem?.mp he
  exact h.lookup.2 hi j (at_map_some.mpr ⟨e, hget, hname⟩)

/-- What becomes of other names does not matter to the lookup of a name. -/
theorem TracedAt.of_set (h : m.TracedAt name) {old new : ModelEntry} (hold : m.entries[i]? = some old)
    (hname : old.name = new.name ∨ (old.name ≠ name ∧ new.name ≠ name)) :
    ({ m with entries := m.entries.set i new } : DirectoryModel).TracedAt name := by
  have hat : ∀ j, At ({ m with entries := m.entries.set i new } : DirectoryModel).nameKeys name j ↔
      At m.nameKeys name j := by
    intro j
    unfold nameKeys
    rw [at_map_some, at_map_some]
    by_cases hj : i = j
    · grind
    · rw [getElem?_set_ne hj]
  intro hgen
  obtain ⟨hle, hsound, hcomplete⟩ := h hgen
  refine ⟨?_, fun j hj => ?_, fun j hj ha => hcomplete j hj ((hat j).mp ha)⟩
  · grind [nameKeys_length]
  grind

theorem tracedAt_markStructureChanged (m : DirectoryModel) (name : Str) : m.markStructureChanged.TracedAt name :=
  traced_iff.mp (traced_markStructureChanged m) name

theorem held_set {old : ModelEntry} {entry : EntryData} (i : Nat) :
    (m.entries.set i (refreshedEntry old entry)).map (·.entry) = m.held.set i entry := by
  rw [map_set, refreshedEntry_entry]
  rfl

theorem held_at {e : ModelEntry} (h : m.entries[i]? = some e) : m.held[i]? = some e.entry := by
  rw [held, getElem?_map, h, Option.map_some]

theorem indexOfPath_eq (places : Places) (hn : m.isNetwork = false) (path : Path) : m.indexOfPath places path =
    match places.entryName m.directory path with
    | some name => m.indexOfName name
    | none => (none, m) := by
  rw [indexOfPath, indexOfTarget, hn]
  rfl

end Lookup

section Added

variable {c c' : Changes ModelEntry} {all rest : List EntryData}

/-- The loop over added items, before the added ones are merged. -/
structure Puts (m : DirectoryModel) (all : List EntryData) (c : Changes ModelEntry) (rest : List EntryData) : Prop where
  traced : ∀ entry ∈ rest, c.model.TracedAt entry.name
  names : ∀ name, occurs EntryData.name name c.model.held = occurs EntryData.name name m.held
  visited : ∃ done, all = done ++ rest ∧
    (c.model.held ++ c.added.map (·.entry)).Perm (puts EntryData.name done m.held) ∧
    ∀ a ∈ c.added, a.entry ∈ done ∧ occurs EntryData.name a.name m.held = 0

theorem occurs_added {a : List ModelEntry} {name : Str} (h : ∀ e ∈ a, e.name ≠ name) :
    occurs EntryData.name name (a.map (·.entry)) = 0 := by
  rw [occurs_eq_zero]
  intro entry hentry
  obtain ⟨e, he, rfl⟩ := mem_map.mp hentry
  exact h e he

theorem Puts.step {entry : EntryData} (h : Puts m all c (entry :: rest))
    (honce : ∀ entry ∈ all, occurs EntryData.name entry.name m.held ≤ 1)
    (hfresh : all.Pairwise fun a b => a.name = b.name → 0 < occurs EntryData.name a.name m.held)
    (ha : Adds c entry c') : Puts m all c' rest := by
  obtain ⟨done, hall, hheld, hadded⟩ := h.visited
  have hmem : entry ∈ all := hall ▸ mem_append_right _ mem_cons_self
  have hall' : all = (done ++ [entry]) ++ rest := by rw [hall, append_assoc, singleton_append]
  have hputs : puts EntryData.name (done ++ [entry]) m.held = put EntryData.name entry (puts EntryData.name done m.held) := by
    rw [puts, foldl_append]
    rfl
  have htraced := h.traced entry mem_cons_self
  cases ha with
  | @replaces index old m' hlooked hindex hold =>
    obtain ⟨e, he, hname⟩ := htraced.found hindex
    obtain rfl := Option.some.inj (he.symm.trans hold)
    have hsame : e.name = (refreshedEntry e entry).name := hname.trans (refreshedEntry_name e entry).symm
    have hoccurs : 0 < occurs EntryData.name entry.name m.held := by
      rw [← h.names]
      exact occurs_pos.mpr ⟨e.entry, mem_of_getElem? (held_at hold), hname⟩
    have hset : ({ m' with entries := c.model.entries.set index (refreshedEntry e entry) } : DirectoryModel).held =
        c.model.held.set index entry := held_set index
    refine ⟨fun next hnext => ?_, fun name => ?_, done ++ [entry], hall', ?_, fun a ha => ?_⟩
    · have hlater := hlooked.tracedAt _ (h.traced next (mem_cons_of_mem _ hnext))
      grind [hlooked.entries, hlater.of_set]
    · rw [← h.names name, occurs_held, occurs_held]
      grind [map_set_same, occurs_congr]
    · have hnew : occurs EntryData.name entry.name (c.added.map (·.entry)) = 0 := occurs_added fun a ha hname' => by
        grind
      have hat : (c.model.held ++ c.added.map (·.entry))[index]? = some e.entry := by
        have hlt := (List.getElem?_eq_some_iff.mp (held_at hold)).1
        rw [getElem?_append_left hlt]
        exact held_at hold
      have hone : occurs EntryData.name e.entry.name (c.model.held ++ c.added.map (·.entry)) ≤ 1 := by
        change occurs EntryData.name e.name _ ≤ 1
        rw [hname, occurs_append, hnew, h.names]
        exact honce entry hmem
      have hput := set_perm_replace (e := entry) hat hone
      rw [set_append_left _ _ (List.getElem?_eq_some_iff.mp (held_at hold)).1] at hput
      rw [hputs, hset]
      refine hput.trans ?_
      change (replace EntryData.name e.name entry _).Perm _
      rw [hname]
      exact put_perm hheld
    grind
  | @joins m' hlooked hindex =>
    have hzero : occurs EntryData.name entry.name m.held = 0 := by
      rw [← h.names]
      exact htraced.missed hindex
    have habsent : occurs EntryData.name entry.name (c.model.held ++ c.added.map (·.entry)) = 0 := by
      rw [occurs_append, h.names, hzero, occurs_added fun a ha hname => ?_]
      rw [hall, pairwise_append] at hfresh
      have hpos := hfresh.2.2 a.entry (hadded a ha).1 entry mem_cons_self hname
      have hnone : occurs EntryData.name a.entry.name m.held = 0 := (hadded a ha).2
      omega
    refine ⟨fun next hnext => ?_, fun name => ?_, done ++ [entry], hall', ?_, fun a ha => ?_⟩
    · exact hlooked.tracedAt _ (h.traced next (mem_cons_of_mem _ hnext))
    · rw [← h.names name, occurs_held, occurs_held]
      exact congrArg _ hlooked.entries
    · have hsame : ({ m' with nextItemId := c.model.nextItemId + 1 } : DirectoryModel).held = c.model.held :=
        congrArg (List.map ModelEntry.entry) hlooked.entries
      rw [hputs, hsame, map_append, ← append_assoc]
      have hput : put EntryData.name entry (c.model.held ++ c.added.map (·.entry)) =
          (c.model.held ++ c.added.map (·.entry)) ++ [entry] := replace_absent habsent
      exact hput ▸ put_perm hheld
    · obtain ha | ha := mem_append.mp ha
      · grind
      · obtain rfl := mem_singleton.mp ha
        exact ⟨mem_append_right _ mem_cons_self, hzero⟩

theorem finishAdded_perm (c : Changes ModelEntry) : (finishAdded c).2.entries.Perm (c.model.entries ++ c.added) := by
  unfold finishAdded
  split
  · split
    · exact sortModelEntries_perm _ _
    · exact (insertSortedModelEntries_perm _ _).trans ((sortModelEntries_perm _ _).append_left _)
  · rename_i hnone
    rw [not_ne_iff.mp hnone, append_nil]
    split
    · unfold settleChanged
      split <;> exact sortModelEntries_perm _ _
    · exact List.Perm.refl _

/-- Added items take the places of those of their names and join the others. -/
theorem Stable.applyItemsAdded_puts (hs : m.Stable) {entries : List EntryData}
    (ht : ∀ entry ∈ entries, m.TracedAt entry.name)
    (honce : ∀ entry ∈ entries, occurs EntryData.name entry.name m.held ≤ 1)
    (hfresh : entries.Pairwise fun a b => a.name = b.name → 0 < occurs EntryData.name a.name m.held)
    {r : List DirectoryModelSignal × DirectoryModel} (hr : m.applyItemsAdded entries = some r) :
    r.2.held.Perm (puts EntryData.name entries m.held) := by
  unfold DirectoryModel.applyItemsAdded at hr
  split at hr
  · rename_i hnil
    obtain rfl := Option.some.inj hr
    rw [hnil]
    exact List.Perm.refl _
  · have hstart : Puts m entries (.start m) entries := by
      refine ⟨ht, fun _ => rfl, [], rfl, ?_, fun a ha => by cases ha⟩
      exact List.Perm.of_eq (append_nil _)
    obtain ⟨c, hc, -, hputs⟩ := addItems entries (grows_start hs) hstart
      fun _ _ _ _ _ hp ha => hp.step honce hfresh ha
    rw [hc] at hr
    obtain rfl := Option.some.inj hr
    obtain ⟨done, hall, hheld, -⟩ := hputs.visited
    rw [hall, append_nil]
    have hperm := (finishAdded_perm c).map (·.entry)
    rw [map_append] at hperm
    exact hperm.trans hheld

end Added

section Deleted

theorem Looked.held (h : Looked m m') : m'.held = m.held := congrArg (List.map ModelEntry.entry) h.entries

/-- The names under which the items at the paths are looked up. -/
def namesAt (places : Places) (directory : Path) (paths : List Path) : List Str :=
  paths.filterMap (places.entryName directory)

/-- The positions found are those of the entries with a name that is looked up. -/
theorem mem_indexesOfPaths (hn : m.isNetwork = false) {paths : List Path}
    (ht : ∀ name ∈ namesAt places m.directory paths, m.TracedAt name)
    (honce : ∀ name ∈ namesAt places m.directory paths, occurs EntryData.name name m.held ≤ 1) {i : Nat} {e : ModelEntry}
    (he : m.entries[i]? = some e) :
    i ∈ (m.indexesOfPaths places paths).1 ↔ e.name ∈ namesAt places m.directory paths := by
  induction paths generalizing m with
  | nil => exact ⟨(fun h => by cases h), (fun h => by cases h)⟩
  | cons path paths ih =>
    have hlooked := looked_indexOfPath places m path
    have hcons : namesAt places m.directory (path :: paths) =
        (places.entryName m.directory path).toList ++ namesAt places m.directory paths := by
      unfold namesAt
      cases hname : places.entryName m.directory path <;> simp [hname]
    have hrest : i ∈ ((m.indexOfPath places path).2.indexesOfPaths places paths).1 ↔
        e.name ∈ namesAt places m.directory paths := by
      have hplace := hlooked.directory
      rw [← hplace]
      apply ih (hlooked.isNetwork.trans hn)
      · grind -linarith [hlooked.tracedAt]
      · grind -linarith [hlooked.held]
      · rw [hlooked.entries]
        exact he
    have hfirst : i ∈ (m.indexOfPath places path).1.toList ↔ e.name ∈ (places.entryName m.directory path).toList := by
      rw [indexOfPath_eq places hn]
      cases hname : places.entryName m.directory path with
      | none => grind -linarith
      | some name =>
        have hmem : name ∈ namesAt places m.directory (path :: paths) := by
          rw [hcons, hname]
          exact mem_append_left _ mem_cons_self
        simp only [Option.mem_toList, Option.some.injEq]
        constructor
        · intro hi
          obtain ⟨found, hfound, hsame⟩ := (ht name hmem).found hi
          grind
        · rintro rfl
          cases hi : (m.indexOfName e.name).1 with
          | none =>
            have hzero := occurs_eq_zero.mp ((ht _ hmem).missed hi) e.entry (mem_of_getElem? (held_at he))
            exact absurd rfl hzero
          | some j =>
            obtain ⟨found, hfound, hsame⟩ := (ht _ hmem).found hi
            have hone := honce _ hmem
            rw [unique_at hone (held_at he) (held_at hfound) rfl hsame]
    grind -linarith [indexesOfPaths]

theorem applyItemsDeleted_tracedAt (places : Places) (paths : List Path) {name : Str} (h : m.TracedAt name) :
    (m.applyItemsDeleted places paths).2.TracedAt name := by
  obtain ⟨indexes, m', hlooked, -, ⟨-, he⟩ | ⟨-, he⟩⟩ := applyItemsDeleted_cases places m paths
  · rw [he]
    exact hlooked.tracedAt name h
  · rw [he]
    exact tracedAt_markStructureChanged _ name

theorem applyItemsDeleted_drops (hn : m.isNetwork = false) (paths : List Path)
    (ht : ∀ name ∈ namesAt places m.directory paths, m.TracedAt name)
    (honce : ∀ name ∈ namesAt places m.directory paths, occurs EntryData.name name m.held ≤ 1) :
    (m.applyItemsDeleted places paths).2.held = drops EntryData.name (namesAt places m.directory paths) m.held := by
  have hkept : (removeIndexes m.entries (m.indexesOfPaths places paths).1).map (·.entry) =
      drops EntryData.name (namesAt places m.directory paths) m.held := by
    have hmodel : removeIndexes m.entries (m.indexesOfPaths places paths).1 =
        drops ModelEntry.name (namesAt places m.directory paths) m.entries :=
      removed_eq_drops fun i e he => mem_indexesOfPaths hn ht honce he
    rw [hmodel, held, drops_eq_filter, drops_eq_filter, filter_map]
    rfl
  obtain ⟨indexes, m', hlooked, hindexes, ⟨hnone, he⟩ | ⟨-, he⟩⟩ := applyItemsDeleted_cases places m paths
  · have hall : removeIndexes m.entries [] = m.entries := by simp [removeIndexes]
    rw [← hindexes, hnone, hall] at hkept
    rw [he, ← hkept]
    exact hlooked.held
  · rw [he, ← hkept, ← hindexes]
    rfl

end Deleted

section Refreshed

variable {c c' : Changes EntryData} {done : List (RefreshPair Path EntryData)} {q : RefreshPair Path EntryData}

def Renames (places : Places) (directory : Path) (es : List EntryData) (p : RefreshPair Path EntryData) : Prop :=
  ∃ entry n, p.entry = some entry ∧ places.entryName directory p.oldPath = some n ∧ n ≠ entry.name ∧
    0 < occurs EntryData.name n es

theorem Renames.not_plain {directory : Path} {es : List EntryData} {p : RefreshPair Path EntryData}
    (h : Renames places directory es p) : ¬ Plain places directory es p := by
  rintro ⟨entry, hentry, hname, -⟩
  obtain ⟨entry', n, hentry', hname', hne, -⟩ := h
  grind

def Clear (places : Places) (m : DirectoryModel) (done : List (RefreshPair Path EntryData)) (name : Str) : Prop :=
  ∀ p ∈ done, Renames places m.directory m.held p → name ∉ pairNames places m.directory p

/-- The loop over refreshed items: with the removed and the added items it waits with, the model holds what the pairs
make of the entries one after the other. -/
structure Visited (places : Places) (m : DirectoryModel) (done : List (RefreshPair Path EntryData))
    (c : Changes EntryData) : Prop where
  traced : ∀ name, Clear places m done name → c.model.TracedAt name
  counts : ∀ name, Clear places m done name → occurs EntryData.name name c.model.held = occurs EntryData.name name m.held
  content : (puts EntryData.name c.added (drops EntryData.name (namesAt places m.directory c.removed) c.model.held)).Perm
    (done.foldl (refreshedBy places m.directory) m.held)
  added : ∀ a ∈ c.added, ∃ p ∈ done, p.entry = some a ∧ ¬ Plain places m.directory m.held p ∧
    ¬ Renames places m.directory m.held p
  distinct : c.added.Pairwise fun a b => a.name ≠ b.name
  removed : ∀ path ∈ c.removed, ∃ p ∈ done, p.entry = none ∧ p.oldPath = path

section Step

variable (h : Visited places m done c) (hapart : ∀ p ∈ done, Apart places m.directory m.held p q)

include hapart in
theorem clear_next {name : Str} (hname : name ∈ pairNames places m.directory q) : Clear places m done name := by
  intro p hp hrenames hmem
  obtain ⟨entry, n, hentry, -⟩ := id hrenames
  exact (hapart p hp).disjoint hentry hrenames.not_plain hmem hname

include h hapart

theorem Visited.added_ne {name : Str} (hname : name ∈ pairNames places m.directory q) :
    ∀ a ∈ c.added, a.name ≠ name := by
  rintro a ha rfl
  obtain ⟨p, hp, hentry, hplain, -⟩ := h.added a ha
  exact (hapart p hp).disjoint hentry hplain (newName_mem hentry) hname

theorem Visited.removed_ne {entry : EntryData} (hq : q.entry = some entry) {name : Str}
    (hname : name ∈ pairNames places m.directory q) : name ∉ namesAt places m.directory c.removed := by
  intro hmem
  obtain ⟨path, hpath, hold⟩ := mem_filterMap.mp hmem
  obtain ⟨p, hp, hnone, rfl⟩ := h.removed path hpath
  exact (hapart p hp).disjoint_removal hnone hq (oldName_mem hold) hname

theorem Visited.occurs_next {entry : EntryData} (hq : q.entry = some entry) {name : Str}
    (hname : name ∈ pairNames places m.directory q) :
    occurs EntryData.name name (done.foldl (refreshedBy places m.directory) m.held) =
      occurs EntryData.name name c.model.held := by
  rw [← occurs_perm h.content, occurs_puts (h.added_ne hapart hname), occurs_drops (h.removed_ne hapart hq hname)]

end Step

theorem foldl_refreshed (directory : Path) (es : List EntryData) :
    (done ++ [q]).foldl (refreshedBy places directory) es =
      refreshedBy places directory (done.foldl (refreshedBy places directory) es) q := by
  rw [foldl_append]
  rfl

theorem clear_snoc {name : Str} (h : Clear places m (done ++ [q]) name) :
    Clear places m done name ∧ (Renames places m.directory m.held q → name ∉ pairNames places m.directory q) :=
  ⟨fun p hp => h p (mem_append_left _ hp), h q (mem_append_right _ mem_cons_self)⟩

theorem Visited.removes (h : Visited places m done c) (hapart : ∀ p ∈ done, Apart places m.directory m.held p q)
    (hq : q.entry = none) : Visited places m (done ++ [q]) { c with removed := c.removed ++ [q.oldPath] } := by
  refine ⟨fun name hclear => h.traced name (clear_snoc hclear).1, fun name hclear => h.counts name (clear_snoc hclear).1,
    ?_, fun a ha => ?_, h.distinct, fun path hpath => ?_⟩
  · have hnames : namesAt places m.directory (c.removed ++ [q.oldPath]) =
        namesAt places m.directory c.removed ++ (places.entryName m.directory q.oldPath).toList := by
      unfold namesAt
      cases hname : places.entryName m.directory q.oldPath <;> simp [hname]
    rw [hnames, foldl_refreshed, refreshedBy, hq]
    cases hname : places.entryName m.directory q.oldPath with
    | none =>
      simp only [Option.toList_none, append_nil]
      exact h.content
    | some n =>
      have hdrops : drops EntryData.name (namesAt places m.directory c.removed ++ [n]) c.model.held =
          drop EntryData.name n (drops EntryData.name (namesAt places m.directory c.removed) c.model.held) := by
        rw [drops, foldl_append]
        rfl
      simp only [Option.toList_some]
      rw [hdrops, ← drop_puts (h.added_ne hapart (oldName_mem hname))]
      exact drop_perm h.content
  · grind [h.added]
  grind [h.removed]

theorem Visited.later_removed {p : RefreshPair Path EntryData} {path : Path}
    (h : ∃ p ∈ done, p.entry = none ∧ p.oldPath = path) : ∃ p' ∈ done ++ [p], p'.entry = none ∧ p'.oldPath = path := by
  grind

theorem Visited.misses (h : Visited places m done c) (hapart : ∀ p ∈ done, Apart places m.directory m.held p q)
    {entry : EntryData} (hq : q.entry = some entry) (hlooked : Looked c.model m')
    (habsent : ∀ n, places.entryName m.directory q.oldPath = some n → occurs EntryData.name n c.model.held = 0) :
    Visited places m (done ++ [q]) { c with model := m', added := c.added ++ [entry] } := by
  have hnone : ∀ n, places.entryName m.directory q.oldPath = some n → occurs EntryData.name n m.held = 0 := by
    intro n hn
    rw [← h.counts n (clear_next hapart (oldName_mem hn))]
    exact habsent n hn
  refine ⟨fun name hclear => hlooked.tracedAt name (h.traced name (clear_snoc hclear).1), fun name hclear => ?_, ?_,
    fun a ha => ?_, ?_, fun path hpath => later_removed (h.removed path hpath)⟩
  · rw [hlooked.held]
    exact h.counts name (clear_snoc hclear).1
  · grind [puts, hlooked.held, refreshedBy, h.occurs_next, oldName_mem, put_perm, h.content]
  · obtain ha | ha := mem_append.mp ha
    · grind [h.added]
    · obtain rfl := mem_singleton.mp ha
      refine ⟨q, mem_append_right _ mem_cons_self, hq, ?_, ?_⟩
      · rintro ⟨other, _, hname, hpos⟩
        grind
      · rintro ⟨-, n, -, hname, -, hpos⟩
        rw [hnone n hname] at hpos
        cases hpos
  · refine pairwise_append.mpr ⟨h.distinct, pairwise_singleton _ _, fun a ha b hb => ?_⟩
    obtain rfl := mem_singleton.mp hb
    exact h.added_ne hapart (newName_mem hq) a ha

theorem Visited.replaces (h : Visited places m done c) (hapart : ∀ p ∈ done, Apart places m.directory m.held p q)
    (honce : ∀ name ∈ pairNames places m.directory q, occurs EntryData.name name m.held ≤ 1)
    {entry : EntryData} (hq : q.entry = some entry) (hlooked : Looked c.model m') {n : Str}
    (hn : places.entryName m.directory q.oldPath = some n) {index : Nat} {old : ModelEntry}
    (hold : c.model.entries[index]? = some old) (hname : old.name = n) {changed : List Nat} {changedStructure : Bool} :
    Visited places m (done ++ [q]) { c with
      model := { m' with entries := c.model.entries.set index (refreshedEntry old entry) }
      changed
      changedStructure } := by
  have hclear := clear_next hapart (oldName_mem hn)
  have hset : ({ m' with entries := c.model.entries.set index (refreshedEntry old entry) } : DirectoryModel).held =
      c.model.held.set index entry := held_set index
  have hone : occurs EntryData.name n c.model.held ≤ 1 := by
    rw [h.counts n hclear]
    exact honce n (oldName_mem hn)
  have hat : c.model.held[index]? = some old.entry := held_at hold
  have hpos : 0 < occurs EntryData.name n c.model.held :=
    occurs_pos.mpr ⟨old.entry, mem_of_getElem? hat, hname⟩
  have hreplace : (c.model.held.set index entry).Perm (replace EntryData.name n entry c.model.held) := by
    subst hname
    exact set_perm_replace hat hone
  -- A name that is still clear is that of neither entry, unless the entry keeps its name.
  have hother : ∀ name, Clear places m (done ++ [q]) name → n = entry.name ∨ (n ≠ name ∧ entry.name ≠ name) := by
    intro name hnext
    by_cases hsame : n = entry.name
    · exact .inl hsame
    · have hrenames : Renames places m.directory m.held q := ⟨entry, n, hq, hn, hsame, h.counts n hclear ▸ hpos⟩
      grind +splitImp +splitIndPred [clear_snoc, oldName_mem, newName_mem]
  refine ⟨fun name hnext => ?_, fun name hnext => ?_, ?_, fun a ha => ?_, h.distinct,
    fun path hpath => later_removed (h.removed path hpath)⟩
  · have htraced := hlooked.tracedAt name (h.traced name (clear_snoc hnext).1)
    grind [hlooked.entries, refreshedEntry_name, htraced.of_set]
  · rw [hset, ← h.counts name (clear_snoc hnext).1]
    obtain hsame | ⟨hne, hne'⟩ := hother name hnext
    · exact occurs_congr (map_set_same hat (hsame.symm.trans hname.symm))
    · rw [occurs_perm hreplace, occurs_replace hne.symm hne'.symm]
  · have hstep : refreshedBy places m.directory (done.foldl (refreshedBy places m.directory) m.held) q =
        replace EntryData.name n entry (done.foldl (refreshedBy places m.directory) m.held) := by
      have hsame := h.occurs_next hapart hq (oldName_mem hn)
      rw [refreshedBy, hq, hn]
      simp only [hsame, hpos, if_true]
    have hdrops : drops EntryData.name (namesAt places m.directory c.removed) (replace EntryData.name n entry c.model.held) =
        replace EntryData.name n entry (drops EntryData.name (namesAt places m.directory c.removed) c.model.held) :=
      drops_replace (h.removed_ne hapart hq (newName_mem hq))
    have hne : ∀ a ∈ c.added, a.name ≠ n ∧ a.name ≠ entry.name := fun a ha =>
      ⟨h.added_ne hapart (oldName_mem hn) a ha, h.added_ne hapart (newName_mem hq) a ha⟩
    rw [foldl_refreshed, hstep, hset]
    refine (puts_perm (drops_perm hreplace)).trans ?_
    rw [hdrops]
    exact (puts_replace hne).trans (replace_perm h.content)
  grind [h.added]

theorem Visited.step (hf : Follows m c) (hn : m.isNetwork = false) (h : Visited places m done c)
    (hapart : ∀ p ∈ done, Apart places m.directory m.held p q)
    (honce : ∀ name ∈ pairNames places m.directory q, occurs EntryData.name name m.held ≤ 1)
    (hr : Refreshes places c q c') : Visited places m (done ++ [q]) c' := by
  have hplace := hf.place.1
  have hlookup := indexOfPath_eq places (hf.place.2.1.trans hn) q.oldPath
  rw [hplace] at hlookup
  cases hr with
  | removes hq => exact h.removes hapart hq
  | @replaces entry index old m' hq hlooked hindex hold =>
    rw [hlookup] at hindex
    cases hname : places.entryName m.directory q.oldPath with
    | none =>
      rw [hname] at hindex
      cases hindex
    | some n =>
      rw [hname] at hindex
      obtain ⟨found, hfound, hsame⟩ := (h.traced n (clear_next hapart (oldName_mem hname))).found hindex
      grind [h.replaces]
  | @misses entry m' hq hlooked hindex =>
    refine h.misses hapart hq hlooked fun n hname => ?_
    rw [hlookup, hname] at hindex
    exact (h.traced n (clear_next hapart (oldName_mem hname))).missed hindex

theorem clear_waiting {pairs : List (RefreshPair Path EntryData)} (hpairs : pairs.Pairwise (Apart places m.directory m.held))
    {p : RefreshPair Path EntryData} (hp : p ∈ pairs) (hnot : ¬ Renames places m.directory m.held p) {name : Str}
    (hname : name ∈ pairNames places m.directory p) : Clear places m pairs name := by
  intro r hr hrenames hmem
  have hne : r ≠ p := by
    rintro rfl
    exact hnot hrenames
  obtain ⟨entry, n, hentry, -⟩ := id hrenames
  have hsymm : Std.Symm (Apart places m.directory m.held) := ⟨fun _ _ => Apart.symm⟩
  have hapart := hpairs.forall hr hp hne
  exact hapart.disjoint hentry hrenames.not_plain hmem hname

theorem finishRefreshed_refreshed {pairs : List (RefreshPair Path EntryData)} (hf : Follows m c)
    (hn : m.isNetwork = false) (h : Visited places m pairs c)
    (honce : ∀ pair ∈ pairs, ∀ n ∈ pairNames places m.directory pair, occurs EntryData.name n m.held ≤ 1)
    (hpairs : pairs.Pairwise (Apart places m.directory m.held))
    {r : List DirectoryModelSignal × DirectoryModel} (hr : finishRefreshed places c = some r) :
    r.2.held.Perm (pairs.foldl (refreshedBy places m.directory) m.held) := by
  have hplace := hf.place.1
  have hgone : ∀ name ∈ namesAt places m.directory c.removed,
      Clear places m pairs name ∧ occurs EntryData.name name m.held ≤ 1 := by
    intro name hname
    obtain ⟨path, hpath, hold⟩ := mem_filterMap.mp hname
    obtain ⟨p, hp, hnone, rfl⟩ := h.removed path hpath
    refine ⟨clear_waiting hpairs hp ?_ (oldName_mem hold), honce p hp name (oldName_mem hold)⟩
    rintro ⟨entry, n, hentry, -⟩
    rw [hnone] at hentry
    cases hentry
  have hnew : ∀ a ∈ c.added, Clear places m pairs a.name ∧ occurs EntryData.name a.name m.held ≤ 1 := by
    intro a ha
    obtain ⟨p, hp, hentry, -, hnot⟩ := h.added a ha
    exact ⟨clear_waiting hpairs hp hnot (newName_mem hentry), honce p hp a.name (newName_mem hentry)⟩
  have hdrops : (c.model.applyItemsDeleted places c.removed).2.held =
      drops EntryData.name (namesAt places m.directory c.removed) c.model.held := by
    have hdeleted := @applyItemsDeleted_drops places _ (hf.place.2.1.trans hn) c.removed
    rw [hplace] at hdeleted
    apply hdeleted
    · intro name hname
      exact h.traced name (hgone name hname).1
    · intro name hname
      rw [h.counts name (hgone name hname).1]
      exact (hgone name hname).2
  obtain ⟨added, ha, -⟩ := (hf.stable.applyItemsDeleted places c.removed).applyItemsAdded c.added
  have hputs : added.2.held.Perm (puts EntryData.name c.added (c.model.applyItemsDeleted places c.removed).2.held) := by
    refine (hf.stable.applyItemsDeleted places c.removed).applyItemsAdded_puts ?_ ?_ ?_ ha
    · grind [applyItemsDeleted_tracedAt, h.traced]
    · grind [occurs_drops_le, h.counts]
    · grind [h.distinct.imp]
  rw [finishRefreshed, ha, Option.map_some] at hr
  obtain rfl := Option.some.inj hr
  rw [hdrops] at hputs
  refine List.Perm.trans ?_ (hputs.trans h.content)
  unfold Changes.settle
  split
  · unfold settleChanged
    split <;> exact (sortModelEntries_perm _ _).map _
  · exact List.Perm.refl _

/-- A batch of refreshed items that do not disturb each other makes of the entries what the items make one by one. -/
theorem Stable.applyItemsRefreshed_refreshed (places : Places) (hs : m.Stable) (ht : m.Traced) (hn : m.isNetwork = false)
    {pairs : List (RefreshPair Path EntryData)}
    (honce : ∀ pair ∈ pairs, ∀ n ∈ pairNames places m.directory pair, occurs EntryData.name n m.held ≤ 1)
    (hpairs : pairs.Pairwise (Apart places m.directory m.held))
    {r : List DirectoryModelSignal × DirectoryModel} (hr : m.applyItemsRefreshed places pairs = some r) :
    r.2.held.Perm (pairs.foldl (refreshedBy places m.directory) m.held) := by
  unfold DirectoryModel.applyItemsRefreshed at hr
  split at hr
  · grind
  · have hstart : ∃ done, pairs = done ++ pairs ∧ Visited places m done (.start m) :=
      ⟨[], rfl, fun name _ => traced_iff.mp ht name, fun _ _ => rfl, List.Perm.refl _, (fun a ha => by cases ha), .nil,
        fun path hpath => by cases hpath⟩
    obtain ⟨c, hc, hf, done, hall, hvisited⟩ := refreshItems
      (P := fun c rest => ∃ done, pairs = done ++ rest ∧ Visited places m done c) places pairs (follows_start hs) hstart
      fun c c' q rest hf hp hrefreshes => by
        obtain ⟨done, hall, hvisited⟩ := hp
        have hmem : q ∈ pairs := hall ▸ mem_append_right _ mem_cons_self
        have hapart : ∀ p ∈ done, Apart places m.directory m.held p q := by
          intro p hp
          rw [hall, pairwise_append] at hpairs
          exact hpairs.2.2 p hp q mem_cons_self
        refine ⟨done ++ [q], by grind, ?_⟩
        exact hvisited.step hf hn hapart (honce q hmem) hrefreshes
    rw [append_nil] at hall
    subst hall
    rw [hc, Option.bind_some] at hr
    exact finishRefreshed_refreshed hf hn hvisited honce hpairs hr

end Refreshed

end DirectoryModel

end TensorDE.Files
