import Mathlib.Tactic
import Mathlib.Data.List.Dedup
import TensorDE.Lib.Maps

namespace TensorDE.Recency

open Maps List

variable {K V : Type} [DecidableEq K]

/-! A map with a queue of its keys, the one used longest ago first. -/

def forget (key : K) (queue : List K) : List K := queue.filter fun candidate => candidate ≠ key

def touch (key : K) (queue : List K) : List K := forget key queue ++ [key]

variable {key k : K} {queue : List K}

theorem mem_forget : k ∈ forget key queue ↔ k ∈ queue ∧ k ≠ key := by
  simp [forget]

theorem mem_touch : k ∈ touch key queue ↔ k ∈ queue ∨ k = key := by
  rw [touch, mem_append, mem_forget, mem_singleton]
  tauto

theorem nodup_forget (h : queue.Nodup) : (forget key queue).Nodup := h.filter _

theorem nodup_touch (h : queue.Nodup) : (touch key queue).Nodup := by
  rw [touch, nodup_append]
  grind [forget]

section Order

variable {queue uses : List K}

/-- Of the uses of each key, `dedup` keeps the last. -/
theorem dedup_concat (uses : List K) (key : K) : (uses ++ [key]).dedup = touch key uses.dedup := by
  induction uses with
  | nil => rfl
  | cons k uses ih => grind +splitImp +splitIndPred [dedup_cons_of_mem, dedup_cons_of_notMem, touch, forget]

theorem sublist_forget (key : K) (h : queue.Sublist uses.dedup) : (forget key queue).Sublist uses.dedup :=
  filter_sublist.trans h

theorem sublist_touch (key : K) (h : queue.Sublist uses.dedup) : (touch key queue).Sublist (uses ++ [key]).dedup := by
  rw [dedup_concat]
  exact (h.filter _).append (List.Sublist.refl _)

end Order

structure Listed (queue : List K) (m : Map K V) : Prop where
  nodup : queue.Nodup
  mem_iff : ∀ k, k ∈ queue ↔ (m.find k).isSome

namespace Listed

variable {queue rest : List K} {m : Map K V} {key : K}

theorem nil : Listed [] (Map.empty : Map K V) := ⟨nodup_nil, fun k => by simp⟩

theorem erase (h : Listed queue m) (key : K) : Listed (forget key queue) (m.erase key) := by
  refine ⟨nodup_forget h.nodup, fun k => ?_⟩
  grind [mem_forget, h.mem_iff, Map.find_erase]

theorem put (h : Listed queue m) (key : K) (v : V) : Listed (touch key queue) (m.insert key v) := by
  refine ⟨nodup_touch h.nodup, fun k => ?_⟩
  grind [mem_touch, h.mem_iff, Map.find_insert]

theorem touch (h : Listed queue m) (hkey : (m.find key).isSome) : Listed (Recency.touch key queue) m := by
  refine ⟨nodup_touch h.nodup, fun k => ?_⟩
  grind [mem_touch, h.mem_iff]

theorem pop (h : Listed (key :: rest) m) : Listed rest (m.erase key) := by
  obtain ⟨hnot, hnodup⟩ := nodup_cons.mp h.nodup
  refine ⟨hnodup, fun k => ?_⟩
  grind [Map.find_erase, h.mem_iff]

theorem length_keys (h : Listed queue m) : m.keys.length = queue.length := by
  grind [List.Perm.length_eq, m.keys_nodup, h.nodup, Map.mem_keys, h.mem_iff, Option.isSome_iff_exists]

end Listed

section Total

variable (size : V → Nat) {m : Map K V} {key : K} {v : V}

def total (m : Map K V) : Nat := (m.values.map size).sum

theorem total_erase (h : m.find key = some v) : total size m = total size (m.erase key) + size v := by
  have hmem : key ∈ m.list.entries.keys := AList.mem_keys.mp (AList.lookup_isSome.mp (Option.isSome_of_eq_some h))
  obtain ⟨u, front, back, hfront, hsplit, hrest⟩ := exists_of_kerase hmem
  have hu : (⟨key, u⟩ : Sigma fun _ : K => V) ∈ m.list.entries := by simp [hsplit]
  obtain rfl : u = v := Option.some.inj ((Map.find_eq_some_iff.mpr hu).symm.trans h)
  have herased : (m.erase key).list.entries = front ++ back := hrest
  grind [total, Map.values]

theorem erase_absent (h : m.find key = none) : m.erase key = m := by
  have hnot : key ∉ m.list.entries.keys := fun hmem => by
    have hsome := AList.lookup_isSome.mpr (AList.mem_keys.mpr hmem)
    rw [← Map.find, h] at hsome
    cases hsome
  apply congrArg Map.mk
  exact AList.ext (kerase_of_notMem_keys hnot)

theorem total_erase_le (m : Map K V) (key : K) : total size (m.erase key) ≤ total size m := by
  cases hfind : m.find key with
  | none => rw [erase_absent hfind]
  | some v => grind [total_erase]

theorem total_listed_nil (h : Listed [] m) : total size m = 0 := by
  have hempty : m.list.entries = [] := eq_nil_of_length_eq_zero (by
    have hlen := h.length_keys
    rwa [Map.keys, AList.keys, List.keys, length_map] at hlen)
  rw [total, Map.values, hempty]
  rfl

theorem total_insert (m : Map K V) (key : K) (v : V) :
    total size (m.insert key v) = size v + total size (m.erase key) := by
  have hinsert : (m.insert key v).list.entries = ⟨key, v⟩ :: (m.erase key).list.entries := AList.entries_insert
  simp only [total, Map.values, hinsert, map_cons, sum_cons]

end Total

end TensorDE.Recency
