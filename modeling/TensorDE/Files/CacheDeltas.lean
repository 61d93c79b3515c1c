import TensorDE.Files.CacheBooks
import TensorDE.Files.ModelDeltas

set_option linter.dupNamespace false

namespace TensorDE.Files

open Maps Catalog Utf8 Sorting

variable {places : Places} {directory : Path} {es fs : List EntryData} {trash : Bool}

section Lookup

variable {name : Str} {i : Nat}

theorem entryIndexForName_found (h : entryIndexForName es name = some i) : ∃ e, es[i]? = some e ∧ e.name = name := by
  obtain ⟨hlt, hname, -⟩ := List.findIdx?_eq_some_iff_getElem.mp h
  grind

theorem entryIndexForName_missed (h : entryIndexForName es name = none) : occurs EntryData.name name es = 0 := by
  rw [occurs_eq_zero]
  intro e he
  have hno := List.findIdx?_eq_none_iff.mp h e he
  exact of_decide_eq_false hno

theorem entryIndexForPath_eq (path : Path) : entryIndexForPath places es directory path =
    match places.entryName directory path with
    | some name => entryIndexForName es (trim name)
    | none => none := by
  grind [entryIndexForPath]

end Lookup

section Refreshed

variable {pair p q : RefreshPair Path EntryData}

theorem overwrite_put {entry : EntryData} (honce : occurs EntryData.name entry.name es ≤ 1) :
    (match entryIndexForName es entry.name with
      | some index => es.set index entry
      | none => es ++ [entry]).Perm (put EntryData.name entry es) := by
  cases hfound : entryIndexForName es entry.name with
  | some index =>
    obtain ⟨old, hold, hname⟩ := entryIndexForName_found hfound
    have hset := set_perm_replace (e := entry) hold (hname.symm ▸ honce)
    rwa [hname] at hset
  | none => exact List.Perm.of_eq (replace_absent (entryIndexForName_missed hfound)).symm

/-- The cache does with one pair what the pair says, where trimming makes no difference. -/
theorem refreshPair_refreshed (honce : ∀ n ∈ pairNames places directory pair, occurs EntryData.name n es ≤ 1)
    (hstraight : Straight places directory es pair) :
    (refreshPair places directory es pair).Perm (refreshedBy places directory es pair) := by
  unfold refreshPair refreshedBy
  cases hentry : pair.entry with
  | some entry =>
    have hput := overwrite_put (honce entry.name (newName_mem hentry))
    cases hname : places.entryName directory pair.oldPath with
    | none =>
      rw [entryIndexForPath_eq, hname]
      exact hput
    | some n =>
      simp only [entryIndexForPath_eq]
      obtain htrim | ⟨habsent, hother⟩ := hstraight n hname
      · cases hfound : entryIndexForName es n with
        | some index => grind [entryIndexForName_found, occurs, set_perm_replace, oldName_mem]
        | none => grind [entryIndexForName_missed]
      grind [entryIndexForName, occurs]
  | none =>
    cases hname : places.entryName directory pair.oldPath with
    | none => rw [entryIndexForPath_eq, hname]
    | some n =>
      simp only [entryIndexForPath_eq]
      obtain htrim | ⟨habsent, hother⟩ := hstraight n hname
      · grind [entryIndexForName_found, eraseIdx_eq_drop, oldName_mem, drop_absent, entryIndexForName_missed]
      grind [drop_absent, entryIndexForName_found, occurs]

theorem refreshed_perm (h : es.Perm fs) : (refreshedBy places directory es pair).Perm (refreshedBy places directory fs pair) := by
  grind [refreshedBy, put_perm, occurs_perm, replace_perm, drop_perm]

variable {name : Str}

/-- A pair leaves the names alone that it is not about. -/
theorem occurs_refreshed (h : name ∉ pairNames places directory pair) :
    occurs EntryData.name name (refreshedBy places directory es pair) = occurs EntryData.name name es := by
  unfold refreshedBy
  cases hentry : pair.entry with
  | some entry =>
    have hne : name ≠ entry.name := fun he => h (he ▸ newName_mem hentry)
    cases hname : places.entryName directory pair.oldPath with
    | none => exact occurs_replace hne hne es
    | some n =>
      have hold : name ≠ n := fun he => h (he ▸ oldName_mem hname)
      simp only
      split
      · exact occurs_replace hold hne es
      · exact occurs_replace hne hne es
  | none => grind [oldName_mem, occurs_drop]

/-- What the pairs so far leave of the names of a pair that is still to come: all as it was, but where the pair removes
an item that one before it removed. -/
def Waits (places : Places) (directory : Path) (es fs : List EntryData) (q : RefreshPair Path EntryData) : Prop :=
  ∀ name ∈ pairNames places directory q,
    occurs EntryData.name name fs = occurs EntryData.name name es ∨
      (q.entry = none ∧ occurs EntryData.name name fs = 0)

theorem Waits.le (h : Waits places directory es fs q) (hname : name ∈ pairNames places directory q) :
    occurs EntryData.name name fs ≤ occurs EntryData.name name es := by
  obtain hsame | ⟨-, hzero⟩ := h name hname
  · exact Nat.le_of_eq hsame
  · exact hzero ▸ Nat.zero_le _

theorem Waits.straight (h : Waits places directory es fs q) (hs : Straight places directory es q) :
    Straight places directory fs q := by
  grind [oldName_mem, trim_mem, Straight, Waits]

theorem Waits.step (hp : Waits places directory es fs p) (h : Waits places directory es fs q)
    (hapart : Apart places directory es p q)
    (honce : ∀ n ∈ pairNames places directory p, occurs EntryData.name n es ≤ 1) :
    Waits places directory es (refreshedBy places directory fs p) q := by
  intro name hname
  obtain hdisjoint | ⟨⟨entry, hentry, hold, hpos⟩, -⟩ | ⟨hpnone, hqnone⟩ := hapart
  · rw [occurs_refreshed fun hmem => hdisjoint hmem hname]
    exact h name hname
  · -- The entry is replaced by one of its name.
    have hsame : occurs EntryData.name entry.name fs = occurs EntryData.name entry.name es := by
      obtain hsame | ⟨hnone, -⟩ := hp entry.name (newName_mem hentry)
      · exact hsame
      · rw [hentry] at hnone
        cases hnone
    have hone := honce entry.name (newName_mem hentry)
    have hkept : occurs EntryData.name name (refreshedBy places directory fs p) = occurs EntryData.name name fs := by
      unfold refreshedBy
      rw [hentry, hold]
      simp only [hsame, hpos, if_true]
      by_cases he : name = entry.name
      · subst he
        have hnew : occurs EntryData.name entry.name [entry] = 1 := by simp [occurs]
        have hgone : occurs EntryData.name entry.name (drop EntryData.name entry.name fs) = 0 := by
          rw [occurs_eq_zero]
          intro e hmem
          exact of_decide_eq_true (List.mem_filter.mp hmem).2
        rw [replace, occurs_append, hgone, hnew]
        omega
      · exact occurs_replace he he fs
    rw [hkept]
    exact h name hname
  · unfold refreshedBy
    rw [hpnone]
    cases hold : places.entryName directory p.oldPath with
    | none => exact h name hname
    | some n =>
      by_cases he : name = n
      · subst he
        refine .inr ⟨hqnone, ?_⟩
        rw [occurs_eq_zero]
        intro e hmem
        exact of_decide_eq_true (List.mem_filter.mp hmem).2
      · rw [occurs_drop he]
        exact h name hname

/-- A batch of refreshed items that do not disturb each other makes of the cached entries what the items say. -/
theorem refreshPairs_refreshed {pairs : List (RefreshPair Path EntryData)}
    (honce : ∀ pair ∈ pairs, ∀ n ∈ pairNames places directory pair, occurs EntryData.name n es ≤ 1)
    (hstraight : ∀ pair ∈ pairs, Straight places directory es pair) (hpairs : pairs.Pairwise (Apart places directory es)) :
    (refreshPairs places trash pairs directory es).Perm (pairs.foldl (refreshedBy places directory) es) := by
  have hloop : ∀ (rest : List (RefreshPair Path EntryData)) (gs fs : List EntryData), gs.Perm fs →
      (∀ q ∈ rest, q ∈ pairs) → rest.Pairwise (Apart places directory es) →
      (∀ q ∈ rest, Waits places directory es fs q) →
      (rest.foldl (refreshPair places directory) gs).Perm (rest.foldl (refreshedBy places directory) fs) := by
    intro rest
    induction rest with
    | nil => exact fun gs fs h _ _ _ => h
    | cons p rest ih =>
      intro gs fs hperm hmem hapart hwaits
      obtain ⟨hfirst, hrest⟩ := List.pairwise_cons.mp hapart
      have hp := hwaits p List.mem_cons_self
      have honce' : ∀ n ∈ pairNames places directory p, occurs EntryData.name n gs ≤ 1 := by
        intro n hn
        rw [occurs_perm hperm]
        exact (hp.le hn).trans (honce p (hmem p List.mem_cons_self) n hn)
      have hstraight' : Straight places directory gs p := by
        have hfs := hp.straight (hstraight p (hmem p List.mem_cons_self))
        intro n hn
        simp only [occurs_perm hperm]
        exact hfs n hn
      have hstep := (refreshPair_refreshed honce' hstraight').trans (refreshed_perm hperm)
      grind [hp.step]
  refine (sortBy_perm _ _).trans (hloop pairs es es (List.Perm.refl _) (fun _ hq => hq) hpairs fun q _ => ?_)
  exact fun name _ => .inl rfl

end Refreshed

def CacheSorted (trash : Bool) (es : List EntryData) : Prop :=
  es.Pairwise fun a b => Sorting.le (EntryData.entrySortCmp trash) a b

theorem cacheSorted_sortEntries (trash : Bool) (es : List EntryData) : CacheSorted trash (EntryData.sortEntries es trash) :=
  sortBy_sorted (transCmp_entrySortCmp trash) es

theorem cacheSorted_refreshPairs (pairs : List (RefreshPair Path EntryData)) :
    CacheSorted trash (refreshPairs places trash pairs directory es) := cacheSorted_sortEntries trash _

section Merge

variable {added : List EntryData}

theorem mergeSortedCacheEntries_perm (es added : List EntryData) (trash : Bool) :
    (mergeSortedCacheEntries es added trash).Perm (es ++ added) := by
  grind [mergeSortedCacheEntries, BackMerge.walk_perm]

theorem mergeSortedCacheEntries_sorted (he : CacheSorted trash es) (ha : CacheSorted trash added) :
    CacheSorted trash (mergeSortedCacheEntries es added trash) := by
  grind [mergeSortedCacheEntries, BackMerge.walk_sorted, transCmp_entrySortCmp, CacheSorted]

end Merge

section Deleted

theorem deletePaths_drops {paths : List Path} (h : ∀ path ∈ paths, ∀ n, places.entryName directory path = some n →
      occurs EntryData.name n es ≤ 1 ∧
        (trim n = n ∨ (occurs EntryData.name n es = 0 ∧ occurs EntryData.name (trim n) es = 0))) :
    deletePaths places paths directory es =
      drops EntryData.name (DirectoryModel.namesAt places directory paths) es := by
  apply removed_eq_drops
  intro i e he
  rw [List.mem_filterMap, DirectoryModel.namesAt, List.mem_filterMap]
  apply exists_congr
  intro path
  apply and_congr_right
  intro hpath
  rw [entryIndexForPath_eq]
  cases hname : places.entryName directory path with
  | none => grind
  | some n =>
    obtain ⟨honce, htrim⟩ := h path hpath n hname
    simp only [Option.some.injEq]
    constructor
    · intro hfound
      obtain ⟨found, hat, hsame⟩ := entryIndexForName_found hfound
      obtain rfl := Option.some.inj (he.symm.trans hat)
      obtain htrim | ⟨-, habsent⟩ := htrim
      · exact (hsame.trans htrim).symm
      · exact absurd hsame (occurs_eq_zero.mp habsent e (List.mem_of_getElem? he))
    · rintro rfl
      obtain htrim | ⟨habsent, -⟩ := htrim
      · cases hfound : entryIndexForName es e.name with
        | none => exact absurd rfl (occurs_eq_zero.mp (entryIndexForName_missed hfound) e (List.mem_of_getElem? he))
        | some j => grind [entryIndexForName_found, unique_at]
      · exact absurd rfl (occurs_eq_zero.mp habsent e (List.mem_of_getElem? he))

theorem cacheSorted_deletePaths (h : CacheSorted trash es) (paths : List Path) :
    CacheSorted trash (deletePaths places paths directory es) := by
  grind [List.zipIdx_map_fst, CacheSorted, deletePaths]

end Deleted

section Added

variable {name : Str} {i : Nat}

theorem indexByName_snoc (es : List EntryData) (e : EntryData) :
    indexByName (es ++ [e]) = (indexByName es).insert e.name es.length := by
  grind [indexByName]

theorem indexByName_spec (es : List EntryData) (name : Str) :
    (∀ i, (indexByName es).find name = some i → ∃ e, es[i]? = some e ∧ e.name = name) ∧
      ((indexByName es).find name = none → occurs EntryData.name name es = 0) := by
  induction es using List.reverseRecOn with
  | nil => exact ⟨(fun i hi => by cases hi), fun _ => rfl⟩
  | append_singleton es e ih => grind [indexByName_snoc, Map.find_insert, occurs_eq_zero]

structure Adding (es done : List EntryData) (a : Additions) : Prop where
  names : a.cached.map (·.name) = es.map (·.name)
  content : (a.cached ++ a.added).Perm (puts EntryData.name done es)
  index : ∀ name i, a.addedIndexByName.find name = some i → ∃ e, a.added[i]? = some e ∧ e.name = name
  absent : ∀ name, a.addedIndexByName.find name = none → occurs EntryData.name name a.added = 0
  once : ∀ e ∈ a.added, occurs EntryData.name e.name a.added ≤ 1 ∧ occurs EntryData.name e.name es = 0

theorem puts_snoc (done : List EntryData) (entry : EntryData) (es : List EntryData) :
    puts EntryData.name (done ++ [entry]) es = put EntryData.name entry (puts EntryData.name done es) := by
  rw [puts, List.foldl_append]
  rfl

variable {a : Additions}

theorem Adding.step {done : List EntryData} {entry : EntryData} (h : Adding es done a)
    (honce : occurs EntryData.name entry.name es ≤ 1) : Adding es (done ++ [entry]) (a.add (indexByName es) entry) := by
  obtain ⟨hfound, hmissed⟩ := indexByName_spec es entry.name
  have hcount : occurs EntryData.name entry.name a.cached = occurs EntryData.name entry.name es := occurs_congr h.names
  unfold Additions.add
  cases hindex : (indexByName es).find entry.name with
  | some i =>
    obtain ⟨e, hat, hname⟩ := hfound i hindex
    have hmap : (a.cached.map (·.name))[i]? = some entry.name := by
      rw [h.names, List.getElem?_map, hat, Option.map_some, hname]
    rw [List.getElem?_map, Option.map_eq_some_iff] at hmap
    obtain ⟨old, hold, hsame⟩ := hmap
    have hlisted : 0 < occurs EntryData.name entry.name es := occurs_pos.mpr ⟨e, List.mem_of_getElem? hat, hname⟩
    have hnew : occurs EntryData.name entry.name a.added = 0 := by
      rw [occurs_eq_zero]
      intro x hx hxname
      have hzero := (h.once x hx).2
      rw [hxname] at hzero
      omega
    have hlt := (List.getElem?_eq_some_iff.mp hold).1
    have hold' : (a.cached ++ a.added)[i]? = some old := by rw [List.getElem?_append_left hlt, hold]
    have hone : occurs EntryData.name old.name (a.cached ++ a.added) ≤ 1 := by
      rw [hsame, occurs_append, hcount, hnew]
      exact honce
    have hset := set_perm_replace (e := entry) hold' hone
    rw [hsame, List.set_append_left _ _ hlt] at hset
    refine ⟨(Patch.map_set_same hold hsame.symm).trans h.names, ?_, h.index, h.absent, h.once⟩
    rw [puts_snoc]
    exact hset.trans (put_perm h.content)
  | none =>
    have habsent := hmissed hindex
    cases hadded : a.addedIndexByName.find entry.name with
    | some i =>
      obtain ⟨old, hold, hsame⟩ := h.index entry.name i hadded
      have hnames : (a.added.set i entry).map (·.name) = a.added.map (·.name) :=
        Patch.map_set_same hold hsame.symm
      have hold' : (a.cached ++ a.added)[a.cached.length + i]? = some old := by
        rw [List.getElem?_append_right (Nat.le_add_right _ _), Nat.add_sub_cancel_left]
        exact hold
      have hone : occurs EntryData.name old.name (a.cached ++ a.added) ≤ 1 := by
        rw [hsame, occurs_append, hcount, habsent, Nat.zero_add, ← hsame]
        exact (h.once old (List.mem_of_getElem? hold)).1
      have hset := set_perm_replace (e := entry) hold' hone
      rw [hsame, List.set_append_right _ _ (Nat.le_add_right _ _), Nat.add_sub_cancel_left] at hset
      refine ⟨h.names, ?_, fun name j hj => ?_, fun name hno => ?_, fun e he => ?_⟩
      · rw [puts_snoc]
        exact hset.trans (put_perm h.content)
      · grind [h.index]
      · rw [occurs_congr hnames]
        exact h.absent name hno
      grind +splitImp +splitIndPred [occurs_congr]
    | none =>
      have hnone := h.absent entry.name hadded
      have hall : occurs EntryData.name entry.name (a.cached ++ a.added) = 0 := by
        rw [occurs_append, hcount, habsent, hnone]
      have hone : occurs EntryData.name entry.name [entry] = 1 := by simp [occurs]
      refine ⟨h.names, ?_, fun name j hj => ?_, fun name hno => ?_, fun e he => ?_⟩
      · have hput : put EntryData.name entry (a.cached ++ a.added) = (a.cached ++ a.added) ++ [entry] :=
          replace_absent hall
        rw [puts_snoc, ← List.append_assoc, ← hput]
        exact put_perm h.content
      · grind [Map.find_insert, h.index]
      · grind [Map.find_insert, occurs_append, h.absent, occurs_eq_zero]
      grind +splitImp +splitIndPred [occurs_append, occurs_eq_zero]

variable {entries : List EntryData}

theorem adding_foldl (h : ∀ entry ∈ entries, occurs EntryData.name entry.name es ≤ 1) :
    Adding es entries (entries.foldl (Additions.add (indexByName es)) ⟨es, [], .empty, false⟩) := by
  have hloop : ∀ (rest done : List EntryData) (a : Additions), (∀ entry ∈ rest, occurs EntryData.name entry.name es ≤ 1) →
      Adding es done a → Adding es (done ++ rest) (rest.foldl (Additions.add (indexByName es)) a) := by
    intro rest
    induction rest with
    | nil =>
      intro done a _ ha
      rwa [List.append_nil]
    | cons entry rest ih =>
      intro done a hrest ha
      have hnext := ih (done ++ [entry]) _ (fun e he => hrest e (List.mem_cons_of_mem _ he))
        (ha.step (hrest entry List.mem_cons_self))
      grind
  apply hloop entries [] _ h
  exact ⟨rfl, List.Perm.of_eq (List.append_nil _), (fun name i hi => by cases hi),
    fun _ _ => rfl, fun e he => by cases he⟩

theorem addEntries_puts (h : ∀ entry ∈ entries, occurs EntryData.name entry.name es ≤ 1) :
    (addEntries trash entries es).Perm (puts EntryData.name entries es) := by
  have hadding := adding_foldl h
  grind [addEntries, EntryData.sortEntries, sortBy_perm, hadding.content, mergeSortedCacheEntries_perm]

theorem cached_kept (entries : List EntryData) (h : a.replacedExisting = false → a.cached = es) (index : Map Str Nat) :
    (entries.foldl (Additions.add index) a).replacedExisting = false →
      (entries.foldl (Additions.add index) a).cached = es := by
  induction entries generalizing a with
  | nil => exact h
  | cons entry entries ih => grind -linarith [Additions.add]

theorem cacheSorted_addEntries (hs : CacheSorted trash es) (entries : List EntryData) :
    CacheSorted trash (addEntries trash entries es) := by
  have hkept := cached_kept (a := ⟨es, [], .empty, false⟩) entries (fun _ => rfl) (indexByName es)
  grind -linarith [addEntries, cacheSorted_sortEntries, mergeSortedCacheEntries_sorted]

end Added

end TensorDE.Files
