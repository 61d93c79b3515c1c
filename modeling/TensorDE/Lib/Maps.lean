import Mathlib.Data.List.AList
import Mathlib.Data.Finset.Dedup
import Mathlib.Data.Finset.Card

namespace TensorDE.Maps

open List

/-- A map whose keys are distinct by construction. The order of its entries
carries no meaning. -/
structure Map (K V : Type) where
  list : AList (fun _ : K => V)

namespace Map

variable {K V : Type} [DecidableEq K]

def empty : Map K V := ⟨∅⟩

variable (m : Map K V)

def find (k : K) : Option V := m.list.lookup k

def insert (m : Map K V) (k : K) (v : V) : Map K V := ⟨m.list.insert k v⟩

def erase (m : Map K V) (k : K) : Map K V := ⟨m.list.erase k⟩

def keys (m : Map K V) : List K := m.list.keys

def values : List V := m.list.entries.map Sigma.snd

def isEmpty (m : Map K V) : Bool := m.list.entries.isEmpty

def keySet : Finset K := m.keys.toFinset

def mapValues (f : K → V → V) : Map K V :=
  ⟨⟨m.list.entries.map fun e => ⟨e.1, f e.1 e.2⟩, by
    have h := m.list.nodupKeys
    rw [List.NodupKeys, List.keys] at h ⊢
    simpa [map_map, Function.comp_def] using h⟩⟩

/-- The map with the same keys and a value computed for each of them. -/
def collect {W : Type} (f : K → V → W) : Map K W :=
  ⟨⟨m.list.entries.map fun e => ⟨e.1, f e.1 e.2⟩, by
    have h := m.list.nodupKeys
    rw [List.NodupKeys, List.keys] at h ⊢
    simpa [map_map, Function.comp_def] using h⟩⟩

def modify (k : K) (f : V → V) : Map K V :=
  m.mapValues fun j v => if j = k then f v else v

def modifyAll (ks : List K) (f : V → V) : Map K V :=
  ks.foldl (fun m k => m.modify k f) m

/-- `entry(k).or_insert(v)`. -/
def ensure (k : K) (v : V) : Map K V :=
  match m.find k with
  | some _ => m
  | none => m.insert k v

def ensureAll (ks : List K) (v : V) : Map K V :=
  ks.foldl (fun m k => m.ensure k v) m

def retain (p : K → V → Bool) : Map K V :=
  ⟨⟨m.list.entries.filter fun e => p e.1 e.2, m.list.nodupKeys.sublist filter_sublist⟩⟩

/-- An update that goes ahead only from the right value. -/
def insertWhen (p : Option V → Bool) (k : K) (v : V) : Option (Map K V) :=
  if p (m.find k) then some (m.insert k v) else none

@[simp] theorem modifyAll_nil (m : Map K V) (f : V → V) : m.modifyAll [] f = m := rfl

@[simp] theorem modifyAll_cons (m : Map K V) (k : K) (ks : List K) (f : V → V) :
    m.modifyAll (k :: ks) f = (m.modify k f).modifyAll ks f := rfl

@[simp] theorem find_empty (k : K) : (empty : Map K V).find k = none := AList.lookup_empty k

@[simp] theorem find_insert (m : Map K V) (k j : K) (v : V) :
    (m.insert k v).find j = if j = k then some v else m.find j := by
  unfold find insert
  by_cases h : j = k
  · subst h
    simp
  grind [AList.lookup_insert_ne]

theorem insert_insert (m : Map K V) (k : K) (v w : V) : (m.insert k v).insert k w = m.insert k w :=
  congrArg Map.mk (AList.insert_insert m.list)

@[simp] theorem find_erase (m : Map K V) (k j : K) : (m.erase k).find j = if j = k then none else m.find j := by
  unfold find erase
  by_cases h : j = k
  · subst h
    simp
  grind [AList.lookup_erase_ne]

variable {m : Map K V} {k : K} {v : V}

theorem find_eq_some_iff : m.find k = some v ↔ ⟨k, v⟩ ∈ m.list.entries :=
  AList.mem_lookup_iff

@[simp] theorem find_collect {W : Type} (m : Map K V) (f : K → V → W) (k : K) :
    (m.collect f).find k = (m.find k).map (f k) := by
  ext v
  grind [Option.map_eq_some_iff, find_eq_some_iff, collect]

@[simp] theorem find_mapValues (m : Map K V) (f : K → V → V) (k : K) :
    (m.mapValues f).find k = (m.find k).map (f k) := find_collect m f k

@[simp] theorem find_modify (m : Map K V) (k j : K) (f : V → V) :
    (m.modify k f).find j = if j = k then (m.find j).map f else m.find j := by
  rw [modify, find_mapValues]
  by_cases hj : j = k <;> simp [hj]

theorem modify_eq_self {f : V → V} (h : ∀ v, m.find k = some v → f v = v) : m.modify k f = m := by
  obtain ⟨⟨entries, hnd⟩⟩ := m
  have hmap : entries.map (fun e => ⟨e.1, if e.1 = k then f e.2 else e.2⟩) = entries := by
    refine (map_congr_left fun e he => ?_).trans (map_id entries)
    obtain ⟨j, v⟩ := e
    by_cases hj : j = k
    · subst hj
      simp [h v (find_eq_some_iff.mpr he)]
    · simp [hj]
  simp only [modify, mapValues]
  congr

omit [DecidableEq K] in
theorem keys_mapValues (m : Map K V) (f : K → V → V) : (m.mapValues f).keys = m.keys := by
  simp [keys, mapValues, AList.keys, List.keys, Function.comp_def]

theorem find_modifyAll (m : Map K V) (ks : List K) (f : V → V) (hf : ∀ v, f (f v) = f v) (j : K) :
    (m.modifyAll ks f).find j = if j ∈ ks then (m.find j).map f else m.find j := by
  induction ks generalizing m with
  | nil => simp
  | cons k ks ih => cases hj : m.find j <;> by_cases hk : j = k <;> by_cases hm : j ∈ ks <;> simp_all

@[simp] theorem find_ensure (m : Map K V) (k j : K) (v : V) :
    (m.ensure k v).find j = if j = k then some ((m.find j).getD v) else m.find j := by
  unfold ensure
  cases h : m.find k with
  | none => by_cases hj : j = k <;> simp [hj, h]
  | some u => by_cases hj : j = k <;> simp [hj, h]

theorem find_ensureAll (m : Map K V) (ks : List K) (v : V) (j : K) :
    (m.ensureAll ks v).find j = if j ∈ ks then some ((m.find j).getD v) else m.find j := by
  induction ks generalizing m with
  | nil => simp [ensureAll]
  | cons k ks ih =>
    have h := ih (m.ensure k v)
    grind [ensureAll, find_ensure]

@[simp] theorem find_retain (m : Map K V) (p : K → V → Bool) (k : K) :
    (m.retain p).find k = (m.find k).filter (p k) := by
  ext v
  rw [Option.filter_eq_some_iff, find_eq_some_iff, find_eq_some_iff]
  simp [retain]

section InsertWhen

variable {X : Type} {xs : List X} {key : X → K} {value : X → V} {p : X → Option V → Bool}

theorem foldlM_insertWhen (hn : (xs.map key).Nodup) (m : Map K V) (h : ∀ x ∈ xs, p x (m.find (key x))) :
    ∃ t, xs.foldlM (fun m x => m.insertWhen (p x) (key x) (value x)) m = some t ∧
      ∀ k, t.find k = ((xs.find? fun x => key x = k).map value).or (m.find k) := by
  induction xs generalizing m with
  | nil => exact ⟨m, rfl, fun k => rfl⟩
  | cons x xs ih =>
    simp only [map_cons, nodup_cons, mem_map, not_exists, not_and] at hn
    simp only [mem_cons, forall_eq_or_imp] at h
    have hrest : ∀ y ∈ xs, p y ((m.insert (key x) (value x)).find (key y)) := fun y hy => by
      simpa [hn.1 y hy] using h.2 y hy
    obtain ⟨t, ht, hfind⟩ := ih hn.2 _ hrest
    grind [insertWhen, find_insert]

theorem of_foldlM_insertWhen (hn : (xs.map key).Nodup) {m t : Map K V}
    (h : xs.foldlM (fun m x => m.insertWhen (p x) (key x) (value x)) m = some t) : ∀ x ∈ xs, p x (m.find (key x)) := by
  induction xs generalizing m with
  | nil => simp
  | cons x xs ih =>
    simp only [map_cons, nodup_cons, mem_map, not_exists, not_and] at hn
    rw [foldlM_cons, Option.bind_eq_bind, Option.bind_eq_some_iff] at h
    obtain ⟨u, hu, h⟩ := h
    obtain ⟨hp, rfl⟩ : p x (m.find (key x)) ∧ m.insert (key x) (value x) = u := by simpa [insertWhen] using hu
    simp only [mem_cons, forall_eq_or_imp]
    refine ⟨hp, fun y hy => ?_⟩
    simpa [hn.1 y hy] using ih hn.2 h y hy

end InsertWhen

theorem mem_values : v ∈ m.values ↔ ∃ k, m.find k = some v := by
  rw [values, mem_map]
  constructor
  · rintro ⟨e, he, rfl⟩
    exact ⟨e.1, find_eq_some_iff.mpr he⟩
  · rintro ⟨k, hk⟩
    exact ⟨⟨k, v⟩, find_eq_some_iff.mp hk, rfl⟩

theorem isEmpty_iff : m.isEmpty ↔ ∀ k, m.find k = none := by
  rw [isEmpty, List.isEmpty_iff, eq_nil_iff_forall_not_mem]
  constructor
  · intro h k
    rw [Option.eq_none_iff_forall_ne_some]
    exact fun v hv => h ⟨k, v⟩ (find_eq_some_iff.mp hv)
  · intro h e he
    have hsome := find_eq_some_iff.mpr he
    rw [h e.1] at hsome
    cases hsome

theorem mem_keys : k ∈ m.keys ↔ ∃ v, m.find k = some v := by
  rw [keys, ← AList.mem_keys, ← AList.lookup_isSome, Option.isSome_iff_exists]
  rfl

omit [DecidableEq K] in
theorem keys_nodup (m : Map K V) : m.keys.Nodup := m.list.keys_nodup

theorem mem_keySet : k ∈ m.keySet ↔ ∃ v, m.find k = some v := by
  rw [keySet, mem_toFinset, mem_keys]

theorem card_keySet (m : Map K V) : m.keySet.card = m.keys.length :=
  toFinset_card_of_nodup m.keys_nodup

end Map

theorem flatten_filter_key {X K : Type} [DecidableEq K] {ks : List K} (hn : ks.Nodup) {f : K → Option (List X)}
    {key : X → K} (hf : ∀ k xs, f k = some xs → ∀ x ∈ xs, key x = k) (p : X → Bool) {k : K}
    (hp : ∀ x, p x → key x = k) :
    (ks.filterMap f).flatten.filter p = if k ∈ ks then ((f k).getD []).filter p else [] := by
  induction ks with
  | nil => rfl
  | cons j ks ih => grind -linarith [filter_eq_nil_iff]

end TensorDE.Maps
