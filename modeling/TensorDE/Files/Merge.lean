import TensorDE.Files.ModelMirror

namespace TensorDE.Files

open Utf8 BackMerge Sorting Patch ItemRange Std List

namespace Buffer

def mergeSortedModelEntriesInPlace (entries added : List ModelEntry) (sort : SortDescriptor) :
    Option (List ModelEntry × List ItemRange) := do
  let (merged, ranges) ← mergeInPlace (sortCmp sort) recordReverseInsertedRange [] entries added
  some (merged, ranges.reverse)

def mergeSortedCacheEntries (entries added : List EntryData) (trash : Bool) : Option (List EntryData) :=
  if added = [] then some entries
  else if entries = [] then some added
  else (mergeInPlace (EntryData.entrySortCmp trash) (fun _ _ => ()) () entries added).map Prod.fst

end Buffer

section Order

theorem transCmp_entryDataSortCmp : TransCmp EntryData.sortCmp :=
  transCmp_then (transCmp_then (transCmp_flip (transCmp_on EntryData.isDir))
    (transCmp_comap transCmp_entryNameCmp EntryData.name)) (transCmp_on EntryData.sizeBytes)

theorem transCmp_entrySortCmp (trash : Bool) : TransCmp (EntryData.entrySortCmp trash) := by
  cases trash with
  | false => exact transCmp_entryDataSortCmp
  | true =>
    exact transCmp_then (transCmp_then (transCmp_on EntryData.trashSortBucket)
      (transCmp_flip (transCmp_on fun e : EntryData => encode (e.trashDeletionTime.getD [])))) transCmp_entryDataSortCmp

end Order

section Ranges

variable {ranges : List ItemRange}

/-- Ranges that could not be fewer: none is empty, and no two touch. -/
structure Maximal (ranges : List ItemRange) : Prop where
  proper : Proper ranges
  apart : ranges.Pairwise fun r t => r.start + r.len < t.start

/-- The ranges of a merge while it records them from the end: they are the positions `f` marks from `k` on. -/
structure Recorded (ranges : List ItemRange) (k : Nat) (f : Nat → Bool) : Prop where
  covers : ∀ i, covers ranges i = f i
  proper : Proper ranges
  starts : ∀ r ∈ ranges, k ≤ r.start
  apart : ranges.Pairwise fun r t => t.start + t.len < r.start

variable {k : Nat} {f : Nat → Bool}

theorem Recorded.skip (h : Recorded ranges (k + 1) f) : Recorded ranges k f :=
  { h with starts := fun r hr => Nat.le_of_succ_le (h.starts r hr) }

theorem Recorded.note (h : Recorded ranges (k + 1) f) :
    Recorded (recordReverseInsertedRange ranges k) k fun i => f i || decide (i = k) := by
  obtain ⟨hcovers, -, hproper, hstarts⟩ := recordReverseInsertedRange_spec ranges k
  refine ⟨fun i => by rw [hcovers, h.covers], hproper h.proper, hstarts h.skip.starts, ?_⟩
  unfold recordReverseInsertedRange
  cases hlast : ranges.getLast? with
  | none => exact pairwise_singleton _ _
  | some last =>
    have hsplit := getLast?_split hlast
    have hapart := h.apart
    have hfirst := h.starts last (mem_of_getLast? hlast)
    rw [hsplit] at hapart
    obtain ⟨hfront, _, hbelow⟩ := pairwise_append.mp hapart
    simp only
    split
    · grind +splitImp +splitIndPred
    · rw [hsplit]
      refine pairwise_append.mpr ⟨hapart, pairwise_singleton _ _, fun r hr t ht => ?_⟩
      obtain rfl := mem_singleton.mp ht
      change k + 1 < r.start
      obtain hr | hr := mem_append.mp hr
      · have := hbelow r hr last (by simp)
        omega
      grind

theorem Recorded.maximal (h : Recorded ranges k f) : Maximal ranges.reverse where
  proper r hr := h.proper r (mem_reverse.mp hr)
  apart := pairwise_reverse.mpr h.apart

end Ranges

namespace Buffer

theorem mergeSortedModelEntriesInPlace_stable {entries added : List ModelEntry} {sort : SortDescriptor}
    (he : entries.Pairwise fun a b => Sorting.le (sortCmp sort) a b)
    (ha : added.Pairwise fun a b => Sorting.le (sortCmp sort) a b) :
    ∃ merged ranges, mergeSortedModelEntriesInPlace entries added sort = some (merged, ranges) ∧
      StableMerge (sortCmp sort) entries added merged (covers ranges) ∧ Maximal ranges := by
  have hstart : Recorded [] (entries.length + added.length) fun _ => false :=
    ⟨fun i => rfl, fun r hr => absurd hr not_mem_nil, fun r hr => absurd hr not_mem_nil, .nil⟩
  obtain ⟨merged, ranges, isAdded, hmerge, hstable, hrecorded⟩ := mergeInPlace_stable (transCmp_sortCmp sort) he ha
    (fun ranges k f h => h.note) (fun ranges k f h => h.skip) hstart
  have hcovers : covers ranges.reverse = isAdded := by
    funext i
    exact any_reverse.trans (hrecorded.covers i)
  grind [hrecorded.maximal, mergeSortedModelEntriesInPlace]

theorem mergeSortedCacheEntries_stable {entries added : List EntryData} {trash : Bool}
    (he : entries.Pairwise fun a b => Sorting.le (EntryData.entrySortCmp trash) a b)
    (ha : added.Pairwise fun a b => Sorting.le (EntryData.entrySortCmp trash) a b) :
    ∃ merged isAdded, mergeSortedCacheEntries entries added trash = some merged ∧
      StableMerge (EntryData.entrySortCmp trash) entries added merged isAdded := by
  unfold mergeSortedCacheEntries
  split
  · rename_i hadded
    subst hadded
    refine ⟨entries, fun _ => false, rfl, dropFrom_none fun _ _ _ => rfl, dropFrom_all fun _ _ _ => rfl,
      fun i hyes => absurd hyes Bool.false_ne_true, he, ?_⟩
    grind
  · split
    · rename_i hentries
      subst hentries
      have hall : ∀ i, 0 ≤ i → i < 0 + added.length → decide (i < added.length) = true :=
        fun i _ hi => decide_eq_true (by omega)
      refine ⟨added, fun i => i < added.length, rfl, dropFrom_all hall, dropFrom_none ?_, fun i => of_decide_eq_true, ha,
        ?_⟩
      · grind
      grind
    · have hkeeps : ∀ (record : Unit) (k : Nat) (f : Nat → Bool), True → True := fun _ _ _ h => h
      obtain ⟨merged, record, isAdded, hmerge, hstable, -⟩ := mergeInPlace_stable (P := fun (_ : Unit) _ _ => True)
        (transCmp_entrySortCmp trash) he ha hkeeps hkeeps trivial
      exact ⟨merged, isAdded, by rw [hmerge]; rfl, hstable⟩

/-- Both merges are stable merges in place, and the ranges of the model are where the added entries end up. -/
theorem merges_stable {entries added : List ModelEntry} {sort : SortDescriptor} {cached fresh : List EntryData}
    {trash : Bool} (he : entries.Pairwise fun a b => Sorting.le (sortCmp sort) a b)
    (ha : added.Pairwise fun a b => Sorting.le (sortCmp sort) a b)
    (hc : cached.Pairwise fun a b => Sorting.le (EntryData.entrySortCmp trash) a b)
    (hf : fresh.Pairwise fun a b => Sorting.le (EntryData.entrySortCmp trash) a b) :
    (∃ merged ranges, mergeSortedModelEntriesInPlace entries added sort = some (merged, ranges) ∧
      StableMerge (sortCmp sort) entries added merged (covers ranges) ∧ Maximal ranges) ∧
    ∃ merged isAdded, mergeSortedCacheEntries cached fresh trash = some merged ∧
      StableMerge (EntryData.entrySortCmp trash) cached fresh merged isAdded :=
  ⟨mergeSortedModelEntriesInPlace_stable he ha, mergeSortedCacheEntries_stable hc hf⟩

def file (name : String) : EntryData := ⟨name.toList, 0, none, 0, none, true, none, false, none, none, false⟩

def shownFiles : List EntryData := [file "a", file "c"]

def newFiles : List EntryData := [file "b", file "d"]

theorem merges_stable_between :
    (∃ merged ranges, mergeSortedModelEntriesInPlace (shownFiles.map .fromEntry) (newFiles.map .fromEntry) .default =
        some (merged, ranges) ∧ merged.map (·.name) = [['a'], ['b'], ['c'], ['d']] ∧ ranges = [⟨1, 1⟩, ⟨3, 1⟩] ∧
      Maximal ranges) ∧ ∃ merged isAdded, mergeSortedCacheEntries shownFiles newFiles false = some merged ∧
      StableMerge (EntryData.entrySortCmp false) shownFiles newFiles merged isAdded := by
  have he : (shownFiles.map .fromEntry).Pairwise fun a b => Sorting.le (sortCmp .default) a b := by decide
  have ha : (newFiles.map .fromEntry).Pairwise fun a b => Sorting.le (sortCmp .default) a b := by decide
  have hc : shownFiles.Pairwise fun a b => Sorting.le (EntryData.entrySortCmp false) a b := by decide
  have hf : newFiles.Pairwise fun a b => Sorting.le (EntryData.entrySortCmp false) a b := by decide
  obtain ⟨⟨merged, ranges, hmerge, -, hmaximal⟩, hcache⟩ := merges_stable he ha hc hf
  have hresult : mergeSortedModelEntriesInPlace (shownFiles.map .fromEntry) (newFiles.map .fromEntry) .default =
      some ([.fromEntry (file "a"), .fromEntry (file "b"), .fromEntry (file "c"), .fromEntry (file "d")],
        [⟨1, 1⟩, ⟨3, 1⟩]) := by
    decide
  cases hmerge.symm.trans hresult
  exact ⟨⟨_, _, hresult, by decide, rfl, hmaximal⟩, hcache⟩

end Buffer

end TensorDE.Files
