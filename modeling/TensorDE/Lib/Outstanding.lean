import Mathlib.Tactic

/-! Numbered messages of which the receiver acknowledges one, and with it all that were sent before it. -/

namespace TensorDE.Outstanding

open List

variable {κ α : Type} [DecidableEq κ] {number : α → κ} {k : κ} {a : α} {xs sent rest : List α}

/-- The message with this number and those behind it. -/
def acknowledge (number : α → κ) (k : κ) : List α → Option (α × List α)
  | [] => none
  | a :: rest => if number a = k then some (a, rest) else acknowledge number k rest

theorem acknowledge_eq_none : acknowledge number k xs = none ↔ ∀ a ∈ xs, number a ≠ k := by
  induction xs with
  | nil => simp [acknowledge]
  | cons a xs ih => grind [acknowledge]

theorem split_of_acknowledge (h : acknowledge number k xs = some (a, rest)) :
    ∃ before, xs = before ++ a :: rest ∧ number a = k ∧ ∀ b ∈ before, number b ≠ k := by
  induction xs with
  | nil => cases h
  | cons x xs ih =>
    rw [acknowledge] at h
    by_cases hx : number x = k
    · rw [if_pos hx] at h
      cases h
      exact ⟨[], rfl, hx, fun b hb => absurd hb not_mem_nil⟩
    grind

theorem acknowledge_eq_find : acknowledge number k xs =
    (xs.find? fun a => number a = k).map fun a => (a, xs.drop (xs.findIdx (fun a => number a = k) + 1)) := by
  induction xs with
  | nil => rfl
  | cons x xs ih => grind [acknowledge]

theorem acknowledge_position {n : Nat} (h : acknowledge number k (sent.drop n) = some (a, rest)) :
    ∃ i, n ≤ i ∧ sent[i]? = some a ∧ number a = k ∧ rest = sent.drop (i + 1) ∧
      (sent.drop n).findIdx? (fun b => number b = k) = some (i - n) := by
  obtain ⟨before, hdrop, ha, hbefore⟩ := split_of_acknowledge h
  have hrest : (sent.drop n).drop (before.length + 1) = rest := by
    rw [hdrop, drop_append, Nat.add_sub_cancel_left, drop_eq_nil_of_le (Nat.le_add_right _ _)]
    rfl
  have hget : (sent.drop n)[before.length]? = some a := by
    rw [hdrop, getElem?_append_right le_rfl, Nat.sub_self]
    rfl
  grind [drop_drop]

theorem findIdx_split (hdistinct : (sent.map number).Nodup) {before : List α} (hsent : sent = before ++ a :: rest) :
    sent.findIdx (fun b => number b = number a) = before.length := by
  grind

theorem acknowledge_drop (hdistinct : (sent.map number).Nodup) {n : Nat}
    (h : acknowledge number k (sent.drop n) = some (a, rest)) :
    ∃ i, n ≤ i ∧ sent[i]? = some a ∧ number a = k ∧ sent.findIdx (fun b => number b = k) = i ∧ rest = sent.drop (i + 1) := by
  obtain ⟨i, hi, hget, rfl, hrest, -⟩ := acknowledge_position h
  obtain ⟨hlt, ha⟩ := List.getElem?_eq_some_iff.mp hget
  have hsent : sent = sent.take i ++ a :: sent.drop (i + 1) := by
    rw [← ha, getElem_cons_drop, take_append_drop]
  refine ⟨i, hi, hget, rfl, ?_, hrest⟩
  rw [findIdx_split hdistinct hsent, length_take_of_le hlt.le]

end TensorDE.Outstanding
