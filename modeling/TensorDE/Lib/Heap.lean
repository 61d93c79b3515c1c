import Mathlib.Data.List.Sort
import Mathlib.Data.List.TakeWhile

namespace TensorDE.Heaps

open List

variable {α κ : Type} [LinearOrder κ] {key : α → κ}

/-- A priority queue, least key first. -/
structure Heap (key : α → κ) where
  entries : List α
  sorted : entries.Pairwise fun a b => key a ≤ key b

namespace Heap

def empty : Heap key := ⟨[], List.Pairwise.nil⟩

variable (h : Heap key)

def push (a : α) : Heap key where
  entries := h.entries.orderedInsert (fun a b => key a ≤ key b) a
  sorted :=
    haveI : IsTrans α fun a b => key a ≤ key b := ⟨fun _ _ _ => le_trans⟩
    haveI : Std.Total fun a b : α => key a ≤ key b := ⟨fun a b => le_total (key a) (key b)⟩
    h.sorted.orderedInsert a h.entries

def peek : Option α := h.entries.head?

/-- `while h.peek().is_some_and(p) { h.pop() }`: what has been popped, and the rest. -/
def popWhile (p : α → Bool) : List α × Heap key :=
  (h.entries.takeWhile p, ⟨h.entries.dropWhile p, h.sorted.sublist (dropWhile_sublist p)⟩)

def retain (p : α → Bool) : Heap key :=
  ⟨h.entries.filter p, h.sorted.sublist filter_sublist⟩

variable {h : Heap key} {a b : α} {p : α → Bool}

@[simp] theorem entries_empty : (empty : Heap key).entries = [] := rfl

theorem push_perm : (h.push a).entries.Perm (a :: h.entries) := perm_orderedInsert _ a h.entries

@[simp] theorem mem_push : b ∈ (h.push a).entries ↔ b = a ∨ b ∈ h.entries := by
  rw [push_perm.mem_iff, mem_cons]

theorem peek_eq_none : h.peek = none ↔ h.entries = [] := head?_eq_none_iff

theorem mem_of_peek (ha : h.peek = some a) : a ∈ h.entries := mem_of_mem_head? ha

theorem le_of_peek (ha : h.peek = some a) (hb : b ∈ h.entries) : key a ≤ key b := by
  grind +splitImp +splitIndPred [h.sorted, peek]

theorem popWhile_append (h : Heap key) (p : α → Bool) : (h.popWhile p).1 ++ (h.popWhile p).2.entries = h.entries :=
  takeWhile_append_dropWhile

theorem of_mem_popWhile (ha : a ∈ (h.popWhile p).1) : p a := mem_takeWhile_imp ha

theorem popWhile_sorted (h : Heap key) (p : α → Bool) : (h.popWhile p).1.Pairwise fun a b => key a ≤ key b :=
  h.sorted.sublist (takeWhile_sublist p)

theorem not_of_mem_rest (hp : ∀ a b, key a ≤ key b → p b → p a) (ha : a ∈ (h.popWhile p).2.entries) : ¬ p a := by
  have hpeek := head?_dropWhile_not p h.entries
  cases hd : (h.popWhile p).2.peek with
  | none =>
    rw [(peek_eq_none).mp hd] at ha
    cases ha
  | some c => grind -linarith [le_of_peek, popWhile, peek]

end Heap

end TensorDE.Heaps
