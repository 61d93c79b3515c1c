import Mathlib.Tactic

namespace TensorDE.RingBuffers

open List

variable {α : Type}

/-- A buffer of fixed capacity. Its entries lie one after the other from `head` on, around the end of the buffer. -/
structure RingBuffer (α : Type) where
  buf : List (Option α)
  head : Nat
  len : Nat
deriving DecidableEq, Repr

namespace RingBuffer

variable {r : RingBuffer α} {x y : α} {xs ys : List α} {i j : Nat}

def withCapacity (capacity : Nat) : RingBuffer α := ⟨List.replicate (max capacity 1) none, 0, 0⟩

def capacity (r : RingBuffer α) : Nat := r.buf.length

/-- Where the entry with this number lies. -/
def slot (r : RingBuffer α) (i : Nat) : Nat := (r.head + i) % r.capacity

def setSlot (r : RingBuffer α) (idx : Nat) (x : α) : RingBuffer α := { r with buf := r.buf.set idx (some x) }

def append (r : RingBuffer α) (x : α) : RingBuffer α := { r.setSlot (r.slot r.len) x with len := r.len + 1 }

def takeFront (r : RingBuffer α) : Option α × RingBuffer α :=
  (r.buf[r.head]?.join, ⟨r.buf.set r.head none, (r.head + 1) % r.capacity, r.len - 1⟩)

def contents (r : RingBuffer α) : List α := (List.range r.len).filterMap fun i => r.buf[r.slot i]?.join

/-- The entries of a ring, oldest first. -/
structure Holds (r : RingBuffer α) (xs : List α) : Prop where
  pos : r.head < r.capacity
  len : r.len = xs.length
  fits : xs.length ≤ r.capacity
  slots : ∀ i x, xs[i]? = some x → r.buf[r.slot i]? = some (some x)

theorem slot_lt (h : 0 < r.capacity) (i : Nat) : r.slot i < r.capacity := Nat.mod_lt _ h

theorem slot_inj (hi : i < r.capacity) (hj : j < r.capacity) (h : r.slot i = r.slot j) : i = j :=
  Nat.ModEq.eq_of_lt_of_lt (Nat.ModEq.add_left_cancel' r.head h) hi hj

theorem slot_zero (h : r.head < r.capacity) : r.slot 0 = r.head := Nat.mod_eq_of_lt h

@[simp] theorem capacity_withCapacity (capacity : Nat) : (withCapacity capacity : RingBuffer α).capacity = max capacity 1 :=
  length_replicate

@[simp] theorem capacity_setSlot (r : RingBuffer α) (idx : Nat) (x : α) : (r.setSlot idx x).capacity = r.capacity :=
  length_set

@[simp] theorem capacity_append (r : RingBuffer α) (x : α) : (r.append x).capacity = r.capacity := length_set

@[simp] theorem capacity_takeFront (r : RingBuffer α) : r.takeFront.2.capacity = r.capacity := length_set

theorem slot_setSlot (r : RingBuffer α) (idx : Nat) (x : α) (i : Nat) : (r.setSlot idx x).slot i = r.slot i := by
  rw [slot, slot, capacity_setSlot]
  rfl

theorem slot_takeFront (r : RingBuffer α) (i : Nat) : r.takeFront.2.slot i = r.slot (i + 1) := by
  rw [slot, slot, capacity_takeFront]
  change ((r.head + 1) % r.capacity + i) % r.capacity = _
  rw [Nat.mod_add_mod, Nat.add_assoc, Nat.add_comm 1 i]

namespace Holds

theorem withCapacity (capacity : Nat) : (RingBuffer.withCapacity capacity : RingBuffer α).Holds [] where
  pos := by
    rw [capacity_withCapacity]
    exact lt_of_lt_of_le Nat.zero_lt_one (le_max_right capacity 1)
  len := rfl
  fits := Nat.zero_le _
  slots := fun _ _ hx => by cases hx

section

variable (h : r.Holds xs)
include h

theorem positive : 0 < r.capacity := Nat.zero_lt_of_lt h.pos

theorem getSlot (hi : i < xs.length) : r.buf[r.slot i]? = some (some xs[i]) :=
  h.slots i _ (getElem?_eq_getElem hi)

/-- Writing to the slot of an entry changes that entry. -/
theorem setSlot (hi : i < xs.length) (x : α) : (r.setSlot (r.slot i) x).Holds (xs.set i x) where
  pos := by
    rw [capacity_setSlot]
    exact h.pos
  len := h.len.trans length_set.symm
  fits := by
    rw [capacity_setSlot, length_set]
    exact h.fits
  slots := by
    intro j y hy
    rw [slot_setSlot]
    change (r.buf.set (r.slot i) (some x))[r.slot j]? = _
    rw [getElem?_set] at hy ⊢
    by_cases hij : i = j
    · grind +splitImp +splitIndPred
    · rw [if_neg hij] at hy
      have hj : j < xs.length := (List.getElem?_eq_some_iff.mp hy).1
      rw [if_neg fun heq => hij (slot_inj (hi.trans_le h.fits) (hj.trans_le h.fits) heq)]
      exact h.slots j y hy

theorem append (hroom : xs.length < r.capacity) (x : α) : (r.append x).Holds (xs ++ [x]) where
  pos := by
    rw [capacity_append]
    exact h.pos
  len := by
    rw [length_append]
    exact congrArg (· + 1) h.len
  fits := by
    rw [capacity_append, length_append]
    exact hroom
  slots := by
    intro j y hy
    change (r.buf.set (r.slot r.len) (some x))[(r.setSlot (r.slot r.len) x).slot j]? = _
    rw [slot_setSlot, h.len, getElem?_set]
    have hj : j < (xs ++ [x]).length := (List.getElem?_eq_some_iff.mp hy).1
    by_cases hlast : j = xs.length
    · grind [slot_lt, capacity]
    · rw [length_append, length_singleton] at hj
      have hlt : j < xs.length := Nat.lt_of_le_of_ne (Nat.le_of_lt_succ hj) hlast
      rw [getElem?_append_left hlt] at hy
      rw [if_neg fun heq => hlast (slot_inj hroom (hlt.trans hroom) heq).symm]
      exact h.slots j y hy

end

theorem takeFront (h : r.Holds (x :: xs)) : r.takeFront.1 = some x ∧ r.takeFront.2.Holds xs := by
  have hfits : xs.length < r.capacity := h.fits
  refine ⟨?_, ?_, ?_, ?_, ?_⟩
  · have hfront := h.slots 0 x rfl
    grind [slot_zero, h.pos, RingBuffer.takeFront]
  · rw [capacity_takeFront]
    exact Nat.mod_lt _ h.positive
  · change r.len - 1 = _
    rw [h.len]
    rfl
  · rw [capacity_takeFront]
    exact hfits.le
  · intro j y hy
    have hj : j < xs.length := (List.getElem?_eq_some_iff.mp hy).1
    rw [slot_takeFront]
    change (r.buf.set r.head none)[r.slot (j + 1)]? = _
    rw [← slot_zero h.pos, getElem?_set, if_neg fun heq => ?_]
    · exact h.slots (j + 1) y hy
    · exact absurd (slot_inj h.positive (Nat.lt_of_le_of_lt hj hfits) heq) (Nat.succ_ne_zero j).symm

theorem contents_eq (h : r.Holds xs) : r.contents = xs := by
  have hslot : ∀ i ∈ range xs.length, r.buf[r.slot i]?.join = xs[i]? := by
    intro i hi
    have hlt := mem_range.mp hi
    rw [h.getSlot hlt, getElem?_eq_getElem hlt]
    rfl
  have hmap : (range xs.length).map (fun i => xs[i]?) = xs.map some := by
    apply ext_getElem
    · rw [length_map, length_map, length_range]
    · intro i hi hj
      rw [getElem_map, getElem_map, getElem_range, getElem?_eq_getElem]
  calc r.contents = (range xs.length).filterMap fun i => xs[i]? := by
        rw [contents, h.len, filterMap_congr hslot]
    _ = ((range xs.length).map fun i => xs[i]?).filterMap id := by
        rw [filterMap_map]
        rfl
    _ = xs := by rw [hmap, filterMap_map, Function.id_comp, filterMap_some]

end Holds

end RingBuffer

end TensorDE.RingBuffers
