import Mathlib.Data.List.Nodup
import Mathlib.Tactic.Basic

namespace TensorDE.Keyed

open List

/-! Lists whose elements are told apart by a key. -/

variable {α κ : Type} [DecidableEq κ] {key : α → κ} {l : List α} {a : α} {k : κ}

theorem find?_key (hn : (l.map key).Nodup) : (l.find? fun b => key b = k) = some a ↔ a ∈ l ∧ key a = k := by
  constructor
  · grind
  · rintro ⟨hmem, rfl⟩
    cases hfind : l.find? fun b => key b = key a with
    | none => simpa using find?_eq_none.mp hfind a hmem
    | some b => grind [inj_on_of_nodup_map]

theorem find?_key_none : (l.find? fun b => key b = k) = none ↔ ∀ a ∈ l, key a ≠ k := by
  simp

theorem perm_cons_filter (hn : (l.map key).Nodup) (ha : a ∈ l) : l.Perm (a :: l.filter fun b => key b ≠ key a) := by
  induction l with
  | nil => cases ha
  | cons b rest ih =>
    rw [map_cons, nodup_cons] at hn
    rcases mem_cons.mp ha with rfl | ha
    · have hall : ∀ b ∈ rest, decide (key b ≠ key a) = true := fun b hb =>
        decide_eq_true fun heq => hn.1 (heq ▸ mem_map_of_mem hb)
      rw [filter_cons_of_neg (by simp), filter_eq_self.mpr hall]
    · have hne : key b ≠ key a := fun heq => hn.1 (heq ▸ mem_map_of_mem ha)
      rw [filter_cons_of_pos (by simpa using hne)]
      exact ((ih hn.2 ha).cons b).trans (.swap a b _)

end TensorDE.Keyed
