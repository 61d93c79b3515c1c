import Mathlib.Tactic

namespace TensorDE.Sets

open List

/-- A set kept as its elements in ascending order, each one once. -/
structure OrdSet (α : Type) [LinearOrder α] where
  elems : List α
  sorted : elems.Pairwise (· < ·)

variable {α : Type} [LinearOrder α]

def insertSorted (x : α) : List α → List α
  | [] => [x]
  | y :: ys => if x < y then x :: y :: ys else if x = y then y :: ys else y :: insertSorted x ys

variable {ys : List α}

theorem mem_insertSorted {x y : α} : y ∈ insertSorted x ys ↔ y = x ∨ y ∈ ys := by
  induction ys with
  | nil => simp [insertSorted]
  | cons z ys ih => grind [insertSorted]

theorem sorted_insertSorted {x : α} (h : ys.Pairwise (· < ·)) : (insertSorted x ys).Pairwise (· < ·) := by
  induction ys with
  | nil => exact pairwise_singleton _ _
  | cons z ys ih =>
    obtain ⟨hz, hys⟩ := pairwise_cons.mp h
    rw [insertSorted]
    split
    · grind
    split
    · exact h
    · refine pairwise_cons.mpr ⟨fun y hy => ?_, ih hys⟩
      grind [mem_insertSorted]

namespace OrdSet

instance : Membership α (OrdSet α) := ⟨fun s x => x ∈ s.elems⟩

def empty : OrdSet α := ⟨[], List.Pairwise.nil⟩

def insert (s : OrdSet α) (x : α) : OrdSet α := ⟨insertSorted x s.elems, sorted_insertSorted s.sorted⟩

def ofList (xs : List α) : OrdSet α := xs.foldl insert empty

/-- `pop_first`. -/
def popFirst (s : OrdSet α) : Option (α × OrdSet α) :=
  match s with
  | ⟨[], _⟩ => none
  | ⟨x :: xs, h⟩ => some (x, ⟨xs, (pairwise_cons.mp h).2⟩)

variable {s t : OrdSet α} {x y : α}

theorem mem_elems : x ∈ s.elems ↔ x ∈ s := Iff.rfl

theorem nodup (s : OrdSet α) : s.elems.Nodup := s.sorted.imp fun h => ne_of_lt h

@[simp] theorem notMem_empty : x ∉ (empty : OrdSet α) := not_mem_nil

@[simp] theorem mem_insert : y ∈ s.insert x ↔ y = x ∨ y ∈ s := mem_insertSorted

variable {xs : List α}

theorem mem_foldl_insert : y ∈ xs.foldl insert s ↔ y ∈ s ∨ y ∈ xs := by
  induction xs generalizing s with
  | nil => simp
  | cons x xs ih =>
    rw [foldl_cons, ih, mem_insert, mem_cons]
    tauto

@[simp] theorem mem_ofList : y ∈ ofList xs ↔ y ∈ xs := by
  simp [ofList, mem_foldl_insert]

theorem popFirst_some (h : s.popFirst = some (x, t)) : x ∈ s ∧ (∀ y ∈ s, x ≤ y) ∧ ∀ y, y ∈ t ↔ y ∈ s ∧ y ≠ x := by
  obtain ⟨_ | ⟨z, zs⟩, hs⟩ := s
  · cases h
  · cases h
    obtain ⟨hlt, _⟩ := pairwise_cons.mp hs
    refine ⟨mem_cons_self, ?_, fun y => ?_⟩
    · intro y hy
      obtain rfl | hy := mem_cons.mp hy
      · exact le_rfl
      · exact (hlt y hy).le
    · change y ∈ zs ↔ y ∈ x :: zs ∧ y ≠ x
      grind

end OrdSet

end TensorDE.Sets
