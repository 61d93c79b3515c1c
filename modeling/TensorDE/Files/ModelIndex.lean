import TensorDE.Files.Model

set_option linter.dupNamespace false

namespace TensorDE.Files

open Maps List

namespace IndexCache

section Keys

variable {K : Type} {keys : List (Option K)} {key : K}

def At (keys : List (Option K)) (key : K) (i : Nat) : Prop := keys[i]? = some (some key)

variable {i : Nat}

theorem At.lt (h : At keys key i) : i < keys.length := (List.getElem?_eq_some_iff.mp h).1

def Distinct (keys : List (Option K)) : Prop := ∀ key i j, At keys key i → At keys key j → i = j

variable {X : Type} {xs : List X} {f : X → K}

theorem at_map_some : At (xs.map fun x => some (f x)) key i ↔ ∃ x, xs[i]? = some x ∧ f x = key := by
  simp [At]

theorem distinct_of_nodup (h : (xs.map f).Nodup) : Distinct (xs.map fun x => some (f x)) := by
  intro key i j hi hj
  grind [At, getElem?_inj]

end Keys

variable {K : Type} [DecidableEq K] {c : IndexCache K} {generation : Nat} {keys : List (Option K)} {key : K}

/-- What the blocks indexed so far say is right and complete. -/
def Exact (c : IndexCache K) (keys : List (Option K)) : Prop :=
  c.indexedUntil ≤ keys.length ∧ ∀ key i, c.index.find key = some i ↔ i < c.indexedUntil ∧ At keys key i

/-- An index of another generation is of no use, but it is not used either. -/
def Agrees (c : IndexCache K) (generation : Nat) (keys : List (Option K)) : Prop :=
  c.generation = generation → c.Exact keys

/-- Positions found are in the list, whether or not the keys there are still the same. -/
def InRange (c : IndexCache K) (generation : Nat) (length : Nat) : Prop :=
  c.generation = generation → ∀ key i, c.index.find key = some i → i < length

theorem exact_nothing (generation : Nat) (keys : List (Option K)) :
    (⟨generation, 0, Map.empty⟩ : IndexCache K).Exact keys :=
  ⟨Nat.zero_le _, fun key i => by simp⟩

theorem agrees_reset (c : IndexCache K) (generation : Nat) (keys : List (Option K)) : c.reset.Agrees generation keys :=
  fun _ => exact_nothing _ keys

theorem inRange_reset (c : IndexCache K) (generation length : Nat) : c.reset.InRange generation length :=
  fun _ key i h => by simp [reset] at h

theorem Agrees.prepare (h : c.Agrees generation keys) :
    (c.prepare generation).generation = generation ∧ (c.prepare generation).Exact keys := by
  unfold IndexCache.prepare
  split
  · exact ⟨‹_›, h ‹_›⟩
  · exact ⟨rfl, exact_nothing _ keys⟩

theorem InRange.prepare {length : Nat} (h : c.InRange generation length) :
    (c.prepare generation).generation = generation ∧
      ∀ key i, (c.prepare generation).index.find key = some i → i < length := by
  unfold IndexCache.prepare
  split
  · exact ⟨‹_›, h ‹_›⟩
  · exact ⟨rfl, fun key i hi => by simp at hi⟩

/-- Indexing the positions from `start` on. -/
theorem insertKeys_find (hd : Distinct keys) (count start : Nat) (index : Map K Nat)
    (h : ∀ key i, index.find key = some i ↔ i < start ∧ At keys key i) (key : K) (i : Nat) :
    ((List.range' start count).foldl (insertKey keys) index).find key = some i ↔ i < start + count ∧ At keys key i := by
  induction count generalizing start index with
  | zero => simpa using h key i
  | succ count ih =>
    rw [range'_succ, foldl_cons, ih (start + 1) (insertKey keys index start), Nat.add_right_comm]
    · rfl
    · intro key i
      cases hk : keys[start]? with
      | none =>
        simp only [insertKey, hk, h key i]
        refine ⟨And.imp_left Nat.lt_succ_of_lt, ?_⟩
        rintro ⟨hi, ha⟩
        grind [ha.lt]
      | some key? =>
        cases key? with
        | none => grind [insertKey, At]
        | some new =>
          simp only [insertKey, hk, Map.find_insert]
          by_cases hkey : key = new
          · subst hkey
            simp only [if_true, Option.some.injEq]
            refine ⟨?_, fun h => hd key start i hk h.2⟩
            rintro rfl
            exact ⟨Nat.lt_succ_self _, hk⟩
          grind [At]

theorem Exact.extend (hd : Distinct keys) (h : c.Exact keys) : (c.extend keys).Exact keys := by
  grind [IndexCache.extend, insertKeys_find, Exact]

theorem extend_indexedUntil (c : IndexCache K) (h : c.indexedUntil < keys.length) :
    c.indexedUntil < (c.extend keys).indexedUntil := by
  simp only [IndexCache.extend, blockSize]
  omega

theorem Exact.search (hd : Distinct keys) (key : K) (rounds : Nat) (h : c.Exact keys)
    (hr : keys.length - c.indexedUntil < rounds) :
    (∀ i, (IndexCache.search keys key rounds c).1 = some i ↔ At keys key i) ∧
      (IndexCache.search keys key rounds c).2.generation = c.generation ∧
      (IndexCache.search keys key rounds c).2.Exact keys := by
  induction rounds generalizing c with
  | zero => exact absurd hr (Nat.not_lt_zero _)
  | succ rounds ih =>
    cases hf : c.index.find key with
    | some i =>
      simp only [IndexCache.search, hf, Option.some.injEq]
      refine ⟨fun j => ⟨?_, fun ha => hd key i j ((h.2 key i).mp hf).2 ha⟩, trivial, h⟩
      rintro rfl
      exact ((h.2 key i).mp hf).2
    | none =>
      by_cases hall : keys.length ≤ c.indexedUntil
      · simp only [IndexCache.search]
        grind [At, Exact]
      · have hlt := extend_indexedUntil c (Nat.lt_of_not_le hall)
        have hmore := ih (h.extend hd) (by omega)
        simp only [IndexCache.search, hf, hall]
        exact hmore

theorem Agrees.lookup (hd : Distinct keys) (h : c.Agrees generation keys) (key : K) :
    (∀ i, (c.lookup generation keys key).1 = some i ↔ At keys key i) ∧
      (c.lookup generation keys key).2.Agrees generation keys := by
  obtain ⟨hgen, hexact⟩ := h.prepare
  obtain ⟨hfound, -, hcache⟩ := hexact.search hd key (keys.length + 1) (by omega)
  exact ⟨hfound, fun _ => hcache⟩

theorem insertKeys_lt (count start : Nat) (index : Map K Nat) (h : ∀ key i, index.find key = some i → i < keys.length)
    (key : K) (i : Nat) (hi : ((List.range' start count).foldl (insertKey keys) index).find key = some i) :
    i < keys.length := by
  induction count generalizing start index with
  | zero => exact h key i hi
  | succ count ih => grind [range'_succ, insertKey, Map.find_insert]

theorem search_lt (key : K) (rounds : Nat) (c : IndexCache K)
    (h : ∀ key i, c.index.find key = some i → i < keys.length) :
    (∀ i, (search keys key rounds c).1 = some i → i < keys.length) ∧
      ∀ key' i, (search keys key rounds c).2.index.find key' = some i → i < keys.length := by
  induction rounds generalizing c with
  | zero => exact ⟨nofun, h⟩
  | succ rounds ih =>
    unfold search
    split
    · grind
    · split
      · exact ⟨nofun, h⟩
      · exact ih (c.extend keys) fun key i hf => insertKeys_lt _ _ _ h key i hf

theorem InRange.lookup (h : c.InRange generation keys.length) (key : K) :
    (∀ i, (c.lookup generation keys key).1 = some i → i < keys.length) ∧
      (c.lookup generation keys key).2.InRange generation keys.length := by
  obtain ⟨-, hrange⟩ := h.prepare
  obtain ⟨hfound, hcache⟩ := search_lt key (keys.length + 1) (c.prepare generation) hrange
  exact ⟨hfound, fun _ => hcache⟩

section Loose

/-- The index names a right position for each key of the blocks indexed so far, though a key may be at several. -/
structure Right (c : IndexCache K) (keys : List (Option K)) : Prop where
  until_le : c.indexedUntil ≤ keys.length
  sound : ∀ key i, c.index.find key = some i → i < c.indexedUntil ∧ At keys key i
  complete : ∀ key i, i < c.indexedUntil → At keys key i → ∃ j, c.index.find key = some j

def AgreesLoosely (c : IndexCache K) (generation : Nat) (keys : List (Option K)) : Prop :=
  c.generation = generation → c.Right keys

theorem right_nothing (generation : Nat) (keys : List (Option K)) :
    (⟨generation, 0, Map.empty⟩ : IndexCache K).Right keys :=
  ⟨Nat.zero_le _, fun key i h => by simp at h, fun key i h => absurd h (Nat.not_lt_zero _)⟩

theorem agreesLoosely_reset (c : IndexCache K) (generation : Nat) (keys : List (Option K)) :
    c.reset.AgreesLoosely generation keys :=
  fun _ => right_nothing _ keys

/-- What `Right` says of one key. -/
structure RightAt (c : IndexCache K) (keys : List (Option K)) (key : K) : Prop where
  sound : ∀ i, c.index.find key = some i → i < c.indexedUntil ∧ At keys key i
  complete : ∀ i, i < c.indexedUntil → At keys key i → ∃ j, c.index.find key = some j

/-- The index is right about a key, whatever it says of others. -/
def AgreesAt (c : IndexCache K) (generation : Nat) (keys : List (Option K)) (key : K) : Prop :=
  c.generation = generation → c.indexedUntil ≤ keys.length ∧ c.RightAt keys key

theorem right_iff : c.Right keys ↔ c.indexedUntil ≤ keys.length ∧ ∀ key, c.RightAt keys key :=
  ⟨fun h => ⟨h.until_le, fun key => ⟨h.sound key, h.complete key⟩⟩,
    fun h => ⟨h.1, fun key => (h.2 key).sound, fun key => (h.2 key).complete⟩⟩

theorem agreesLoosely_iff [Nonempty K] : c.AgreesLoosely generation keys ↔ ∀ key, c.AgreesAt generation keys key := by
  constructor
  · intro h key hgen
    obtain ⟨hle, hright⟩ := (right_iff).mp (h hgen)
    exact ⟨hle, hright key⟩
  · intro h hgen
    obtain ⟨any⟩ := ‹Nonempty K›
    exact (right_iff).mpr ⟨(h any hgen).1, fun key => (h key hgen).2⟩

theorem insertKeys_rightAt (key : K) (count start : Nat) (index : Map K Nat)
    (hs : ∀ i, index.find key = some i → i < start ∧ At keys key i)
    (hc : ∀ i, i < start → At keys key i → ∃ j, index.find key = some j) :
    (∀ i, ((List.range' start count).foldl (insertKey keys) index).find key = some i →
        i < start + count ∧ At keys key i) ∧ ∀ i, i < start + count → At keys key i →
        ∃ j, ((List.range' start count).foldl (insertKey keys) index).find key = some j := by
  induction count generalizing start index with
  | zero => exact ⟨hs, hc⟩
  | succ count ih =>
    rw [range'_succ, foldl_cons, Nat.add_comm count 1, ← Nat.add_assoc]
    refine ih (start + 1) (insertKey keys index start) (fun i hf => ?_) fun i hi ha => ?_
    · unfold insertKey at hf
      split at hf
      · rename_i new hnew
        rw [Map.find_insert] at hf
        split at hf
        · rename_i hkey
          obtain rfl := Option.some.inj hf
          exact ⟨Nat.lt_succ_self _, hkey ▸ hnew⟩
        · exact ⟨Nat.lt_succ_of_lt (hs i hf).1, (hs i hf).2⟩
      · exact ⟨Nat.lt_succ_of_lt (hs i hf).1, (hs i hf).2⟩
    grind [insertKey, Map.find_insert, At]

theorem extend_until_le (c : IndexCache K) (keys : List (Option K)) : (c.extend keys).indexedUntil ≤ keys.length :=
  Nat.min_le_right _ _

theorem RightAt.extend (h : c.RightAt keys key) (hle : c.indexedUntil ≤ keys.length) :
    (c.extend keys).RightAt keys key := by
  have hmin : c.indexedUntil ≤ min (c.indexedUntil + blockSize) keys.length :=
    Nat.le_min.mpr ⟨Nat.le_add_right _ _, hle⟩
  obtain ⟨hs, hc⟩ := insertKeys_rightAt key (min (c.indexedUntil + blockSize) keys.length - c.indexedUntil)
    c.indexedUntil c.index h.sound h.complete
  rw [Nat.add_sub_cancel' hmin] at hs hc
  exact ⟨hs, hc⟩

variable {other : K}

theorem RightAt.searched (key : K) (rounds : Nat) (h : c.RightAt keys other)
    (hle : c.indexedUntil ≤ keys.length) : (IndexCache.search keys key rounds c).2.indexedUntil ≤ keys.length ∧
      (IndexCache.search keys key rounds c).2.RightAt keys other := by
  induction rounds generalizing c with
  | zero => exact ⟨hle, h⟩
  | succ rounds ih => grind [IndexCache.search, h.extend, extend_until_le]

theorem RightAt.search (rounds : Nat) (h : c.RightAt keys key) (hle : c.indexedUntil ≤ keys.length)
    (hr : keys.length - c.indexedUntil < rounds) :
    (∀ i, (IndexCache.search keys key rounds c).1 = some i → At keys key i) ∧
      ((IndexCache.search keys key rounds c).1 = none → ∀ i, ¬At keys key i) := by
  induction rounds generalizing c with
  | zero => exact absurd hr (Nat.not_lt_zero _)
  | succ rounds ih =>
    cases hf : c.index.find key with
    | some i => grind +splitImp +splitIndPred [IndexCache.search]
    | none => grind [IndexCache.search, h.complete, extend_indexedUntil, h.extend, extend_until_le, At]

theorem AgreesAt.prepare (h : c.AgreesAt generation keys key) :
    (c.prepare generation).indexedUntil ≤ keys.length ∧ (c.prepare generation).RightAt keys key := by
  unfold IndexCache.prepare
  split
  · exact h ‹_›
  · obtain ⟨hle, hright⟩ := right_iff.mp (right_nothing generation keys)
    exact ⟨hle, hright key⟩

theorem AgreesAt.lookup (h : c.AgreesAt generation keys key) :
    (∀ i, (c.lookup generation keys key).1 = some i → At keys key i) ∧
      ((c.lookup generation keys key).1 = none → ∀ i, ¬At keys key i) := by
  obtain ⟨hle, hright⟩ := h.prepare
  exact hright.search (keys.length + 1) hle (by omega)

theorem AgreesAt.looked (h : c.AgreesAt generation keys other) (key : K) :
    (c.lookup generation keys key).2.AgreesAt generation keys other := by
  obtain ⟨hle, hright⟩ := h.prepare
  exact fun _ => hright.searched key (keys.length + 1) hle

theorem AgreesLoosely.lookup [Nonempty K] (h : c.AgreesLoosely generation keys) (key : K) :
    (∀ i, (c.lookup generation keys key).1 = some i → At keys key i) ∧
      ((c.lookup generation keys key).1 = none → ∀ i, ¬At keys key i) ∧
      (c.lookup generation keys key).2.AgreesLoosely generation keys := by
  have hall := agreesLoosely_iff.mp h
  obtain ⟨hfound, hmissed⟩ := (hall key).lookup
  exact ⟨hfound, hmissed, agreesLoosely_iff.mpr fun other => (hall other).looked key⟩

end Loose

end IndexCache

end TensorDE.Files
