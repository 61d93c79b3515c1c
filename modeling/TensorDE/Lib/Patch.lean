import Mathlib.Tactic

namespace TensorDE.Patch

open List

variable {α : Type}

/-- The list without the marked positions; the first one is `k`. -/
def dropFrom (gone : Nat → Bool) : Nat → List α → List α
  | _, [] => []
  | k, x :: xs => if gone k then dropFrom gone (k + 1) xs else x :: dropFrom gone (k + 1) xs

/-- A list of `n` items from position `k` on: the marked ones are read from the source, the others are those of the
list in their order. -/
def weaveFrom (source : List α) (new : Nat → Bool) : Nat → Nat → List α → List α
  | _, 0, _ => []
  | k, n + 1, xs =>
    if new k then source[k]?.toList ++ weaveFrom source new (k + 1) n xs
    else xs.head?.toList ++ weaveFrom source new (k + 1) n xs.tail

/-- The list with the marked positions read again from the source. -/
def rereadFrom (source : List α) (changed : Nat → Bool) : Nat → List α → List α
  | _, [] => []
  | k, x :: xs => (if changed k then source[k]?.getD x else x) :: rereadFrom source changed (k + 1) xs

section Equations

variable {gone new changed : Nat → Bool} {source xs : List α} {k n : Nat} {x : α}

theorem dropFrom_cons :
    dropFrom gone k (x :: xs) = if gone k then dropFrom gone (k + 1) xs else x :: dropFrom gone (k + 1) xs := rfl

theorem weaveFrom_succ : weaveFrom source new k (n + 1) xs =
    if new k then source[k]?.toList ++ weaveFrom source new (k + 1) n xs
    else xs.head?.toList ++ weaveFrom source new (k + 1) n xs.tail := rfl

theorem rereadFrom_cons : rereadFrom source changed k (x :: xs) =
    (if changed k then source[k]?.getD x else x) :: rereadFrom source changed (k + 1) xs := rfl

end Equations

section Set

variable {β : Type} {xs : List α} {index : Nat} {old new : α}

theorem map_set_same {f : α → β} (h : xs[index]? = some old) (hf : f new = f old) :
    (xs.set index new).map f = xs.map f := by
  grind [set_getElem_self, map_set]

end Set

section Drop

variable {gone gone' : Nat → Bool} {k : Nat}

theorem dropFrom_append (xs ys : List α) :
    dropFrom gone k (xs ++ ys) = dropFrom gone k xs ++ dropFrom gone (k + xs.length) ys := by
  induction xs generalizing k with
  | nil => rfl
  | cons x xs ih => grind [dropFrom_cons]

variable {xs : List α}

theorem dropFrom_congr (h : ∀ p, k ≤ p → p < k + xs.length → gone p = gone' p) :
    dropFrom gone k xs = dropFrom gone' k xs := by
  induction xs generalizing k with
  | nil => rfl
  | cons x xs ih => grind [dropFrom_cons]

theorem dropFrom_none (h : ∀ p, k ≤ p → p < k + xs.length → gone p = false) : dropFrom gone k xs = xs := by
  induction xs generalizing k with
  | nil => rfl
  | cons x xs ih => grind [dropFrom_cons]

theorem dropFrom_all (h : ∀ p, k ≤ p → p < k + xs.length → gone p) : dropFrom gone k xs = [] := by
  induction xs generalizing k with
  | nil => rfl
  | cons x xs ih => grind [dropFrom_cons]

theorem dropFrom_map {β : Type} (f : α → β) (xs : List α) :
    dropFrom gone k (xs.map f) = (dropFrom gone k xs).map f := by
  induction xs generalizing k with
  | nil => rfl
  | cons x xs ih => grind [dropFrom_cons]

theorem dropFrom_zipIdx (gone : Nat → Bool) (k : Nat) (xs : List α) :
    dropFrom gone k xs = ((xs.zipIdx k).filter fun pair => !gone pair.2).map Prod.fst := by
  induction xs generalizing k with
  | nil => rfl
  | cons x xs ih => grind [dropFrom_cons]

theorem length_dropFrom_congr {xs ys : List α} (h : xs.length = ys.length) :
    (dropFrom gone k xs).length = (dropFrom gone k ys).length := by
  induction xs generalizing k ys with
  | nil => grind
  | cons x xs ih =>
    cases ys with
    | nil => cases h
    | cons y ys => grind [dropFrom]

end Drop

section Weave

variable {source : List α} {new : Nat → Bool}

theorem weaveFrom_dropFrom {before xs : List α} (h : source = before ++ xs) :
    weaveFrom source new before.length xs.length (dropFrom new before.length xs) = xs := by
  induction xs generalizing before with
  | nil => rfl
  | cons x xs ih => grind -linarith [length_append, weaveFrom_succ, dropFrom_cons]

theorem weave_drop (source : List α) (new : Nat → Bool) :
    weaveFrom source new 0 source.length (dropFrom new 0 source) = source :=
  weaveFrom_dropFrom (nil_append source).symm

theorem length_weaveFrom_congr {source' : List α} (hs : source.length = source'.length) {k n : Nat} {xs ys : List α}
    (h : xs.length = ys.length) : (weaveFrom source new k n xs).length = (weaveFrom source' new k n ys).length := by
  have hone : ∀ {zs zs' : List α}, zs.length = zs'.length → ∀ i : Nat, zs[i]?.toList.length = zs'[i]?.toList.length := by
    intro zs zs' hz i
    by_cases hi : i < zs.length
    · rw [getElem?_eq_getElem hi, getElem?_eq_getElem (hz ▸ hi)]
      rfl
    · rw [getElem?_eq_none (by omega), getElem?_eq_none (by omega)]
  induction n generalizing k xs ys with
  | zero => rfl
  | succ n ih =>
    rw [weaveFrom_succ, weaveFrom_succ]
    split
    · rw [length_append, length_append, ih h, hone hs]
    · have htail : xs.tail.length = ys.tail.length := by simp [h]
      rw [length_append, length_append, ih htail, head?_eq_getElem?, head?_eq_getElem?, hone h]

end Weave

section Reread

variable {source : List α} {changed : Nat → Bool} {k : Nat} (xs : List α)

@[simp] theorem length_rereadFrom : (rereadFrom source changed k xs).length = xs.length := by
  induction xs generalizing k with
  | nil => rfl
  | cons x xs ih => rw [rereadFrom_cons, length_cons, ih, length_cons]

theorem getElem?_rereadFrom (i : Nat) : (rereadFrom source changed k xs)[i]? =
    xs[i]?.map fun x => if changed (k + i) then source[k + i]?.getD x else x := by
  induction xs generalizing k i with
  | nil => rfl
  | cons x xs ih => grind [rereadFrom_cons]

theorem reread_eq {xs : List α} (hlen : xs.length = source.length)
    (h : ∀ i, changed i = false → xs[i]? = source[i]?) : rereadFrom source changed 0 xs = source := by
  refine ext_getElem? fun i => ?_
  grind -linarith [getElem?_rereadFrom]

end Reread

end TensorDE.Patch
