import Mathlib.Tactic
import Mathlib.Data.List.Nodup
import Mathlib.Data.List.Sort

namespace TensorDE.Sorting

open Std List

section Compare

variable {α β : Type} {cmp cmp₁ cmp₂ : α → α → Ordering}

theorem transCmp_then (h₁ : TransCmp cmp₁) (h₂ : TransCmp cmp₂) : TransCmp fun a b => (cmp₁ a b).then (cmp₂ a b) :=
  inferInstanceAs (TransCmp (compareLex cmp₁ cmp₂))

theorem transCmp_on [Ord β] [TransOrd β] (f : α → β) : TransCmp fun a b => compare (f a) (f b) :=
  inferInstanceAs (TransCmp (compareOn f))

theorem transCmp_comap {cmp : β → β → Ordering} (h : TransCmp cmp) (f : α → β) : TransCmp fun a b => cmp (f a) (f b) where
  eq_swap := h.eq_swap
  isLE_trans := h.isLE_trans

theorem transCmp_flip (h : TransCmp cmp) : TransCmp fun a b => cmp b a := TransCmp.opposite

theorem transCmp_swap (h : TransCmp cmp) : TransCmp fun a b => (cmp a b).swap := by
  grind [h.eq_swap.symm, transCmp_flip]

theorem transCmp_eq : TransCmp fun _ _ : α => Ordering.eq where
  eq_swap := rfl
  isLE_trans _ _ := rfl

theorem transCmp_ite (c : Prop) [Decidable c] (h : TransCmp cmp) : TransCmp fun a b => if c then cmp a b else .eq := by
  by_cases hc : c
  · simpa only [hc, if_true] using h
  · simpa only [hc, if_false] using transCmp_eq

/-- The order of a stable sort by a comparison. -/
def le (cmp : α → α → Ordering) (a b : α) : Bool := cmp a b ≠ .gt

theorem le_iff {a b : α} : le cmp a b ↔ (cmp a b).isLE := by
  cases h : cmp a b <;> simp [le, h]

theorem le_trans (h : TransCmp cmp) {a b c : α} (hab : le cmp a b) (hbc : le cmp b c) : le cmp a c :=
  (le_iff).mpr (h.isLE_trans (le_iff.mp hab) (le_iff.mp hbc))

theorem le_total (h : TransCmp cmp) (a b : α) : le cmp a b || le cmp b a := by
  have hswap : cmp a b = (cmp b a).swap := h.eq_swap
  cases hba : cmp b a <;> simp [le, hba, hswap]

/-- `slice::sort_by`: the stable sort. -/
def sortBy (cmp : α → α → Ordering) (xs : List α) : List α := xs.insertionSort fun a b => le cmp a b

theorem sortBy_perm (cmp : α → α → Ordering) (xs : List α) : (sortBy cmp xs).Perm xs := perm_insertionSort _ xs

variable {a : α}

theorem mem_sortBy {xs : List α} : a ∈ sortBy cmp xs ↔ a ∈ xs := (sortBy_perm cmp xs).mem_iff

theorem sortBy_sorted (h : TransCmp cmp) (xs : List α) : (sortBy cmp xs).Pairwise fun a b => le cmp a b := by
  have htotal : Std.Total fun a b => (le cmp a b : Prop) := ⟨fun a b => by simpa using le_total h a b⟩
  have htrans : IsTrans α fun a b => (le cmp a b : Prop) := ⟨fun a b c => le_trans h⟩
  exact pairwise_insertionSort _ xs

/-- `slice::sort_unstable_by_key`: some arrangement in the order of the keys. Which of the items with equal
keys comes first is left open. -/
structure UnstableSort {α : Type} (key : α → Nat) where
  sort : List α → List α
  perm : ∀ xs, (sort xs).Perm xs
  sorted : ∀ xs, (sort xs).Pairwise fun a b => key a ≤ key b

def UnstableSort.stable {α : Type} (key : α → Nat) : UnstableSort key where
  sort xs := xs.insertionSort fun a b => key a ≤ key b
  perm xs := perm_insertionSort _ xs
  sorted xs := by
    grind [pairwise_insertionSort]

end Compare

section Related

variable {α β : Type} {R : α → β → Prop}

variable {xs : List α} {ys : List β}

theorem pairwise_of_forall₂ {P : α → α → Prop} {Q : β → β → Prop} (h : List.Forall₂ R xs ys)
    (hstep : ∀ a a' b b', R a b → R a' b' → P a a' → Q b b') (hp : xs.Pairwise P) : ys.Pairwise Q := by
  induction h with
  | nil => exact .nil
  | @cons a b xs ys hab hrest ih =>
    rw [pairwise_cons] at hp
    refine pairwise_cons.mpr ⟨fun b' hb' => ?_, ih hp.2⟩
    obtain ⟨i, hi, rfl⟩ := mem_iff_getElem.mp hb'
    have hlen : i < xs.length := hrest.length_eq ▸ hi
    exact hstep a xs[i] b ys[i] hab (hrest.get hlen hi) (hp.1 _ (getElem_mem hlen))

theorem exists_of_forall₂ (h : List.Forall₂ R xs ys) {b : β} (hb : b ∈ ys) : ∃ a ∈ xs, R a b := by
  induction h with
  | nil => cases hb
  | @cons a y xs ys hab _ ih => grind

theorem forall₂_set {R : α → α → Prop} (hr : ∀ a, R a a) {i : Nat} {old new : α} (h : xs[i]? = some old)
    (hnew : R old new) : List.Forall₂ R xs (xs.set i new) := by
  induction xs generalizing i with
  | nil => exact .nil
  | cons x xs ih =>
    cases i with
    | zero =>
      obtain rfl := Option.some.inj h
      exact .cons hnew (forall₂_same.mpr fun a _ => hr a)
    | succ i => exact .cons (hr x) (ih h)

theorem forall₂_of_map_eq {γ : Type} {f : α → γ} {g : β → γ} (h : xs.map f = ys.map g) :
    List.Forall₂ (fun a b => f a = g b) xs ys := by
  have heq : List.Forall₂ Eq (xs.map f) (ys.map g) := forall₂_eq_eq_eq ▸ h
  exact forall₂_map_right_iff.mp (forall₂_map_left_iff.mp heq)

end Related

section Rearrange

variable {α β : Type}

theorem eq_of_perm_of_map_eq {xs ys : List α} {f : α → β} (hp : xs.Perm ys) (hn : (xs.map f).Nodup)
    (h : xs.map f = ys.map f) : xs = ys := by
  have hinj : ∀ a ∈ xs, ∀ b ∈ xs, f a = f b → a = b := fun a ha b hb => inj_on_of_nodup_map hn ha hb
  have hlen : xs.length = ys.length := by simpa using congrArg List.length h
  refine ext_getElem hlen fun i hi hj => ?_
  refine hinj _ (getElem_mem hi) _ (hp.mem_iff.mpr (getElem_mem hj)) ?_
  have hi? := congrArg (fun zs => zs[i]?) h
  simpa [hi, hj] using hi?

/-- Writing values at positions, one after the other. -/
def writeAll (xs : List α) (writes : List (α × Nat)) : List α := writes.foldl (fun xs w => xs.set w.2 w.1) xs

@[simp] theorem length_writeAll (xs : List α) (writes : List (α × Nat)) : (writeAll xs writes).length = xs.length := by
  induction writes generalizing xs with
  | nil => rfl
  | cons w writes ih => rw [writeAll, foldl_cons, ← writeAll, ih, length_set]

variable {xs : List α} {writes : List (α × Nat)}

theorem writeAll_of_notMem {i : Nat} (h : i ∉ writes.map Prod.snd) : (writeAll xs writes)[i]? = xs[i]? := by
  induction writes generalizing xs with
  | nil => rfl
  | cons w writes ih =>
    simp only [map_cons, mem_cons, not_or] at h
    rw [writeAll, foldl_cons, ← writeAll, ih h.2, getElem?_set_ne (Ne.symm h.1)]

theorem writeAll_of_mem (hn : (writes.map Prod.snd).Nodup) {w : α × Nat}
    (hw : w ∈ writes) (hi : w.2 < xs.length) : (writeAll xs writes)[w.2]? = some w.1 := by
  induction writes generalizing xs with
  | nil => simp at hw
  | cons v writes ih => grind [writeAll, writeAll_of_notMem, getElem?_set_self]

/-- Writing at every position leaves the values written. -/
theorem writeAll_perm (h : (writes.map Prod.snd).Perm (range xs.length)) : (writeAll xs writes).Perm (writes.map Prod.fst) := by
  have hn : (writes.map Prod.snd).Nodup := h.nodup_iff.mpr nodup_range
  have hlt : ∀ w ∈ writes, w.2 < xs.length := fun w hw => mem_range.mp (h.mem_iff.mp (mem_map_of_mem hw))
  have hread : writes.map (fun w => (writeAll xs writes)[w.2]?) = (writes.map Prod.fst).map some := by
    rw [map_map]
    exact map_congr_left fun w hw => writeAll_of_mem hn hw (hlt w hw)
  have hall : (range xs.length).map (fun i => (writeAll xs writes)[i]?) = (writeAll xs writes).map some := by
    refine ext_getElem (by simp) fun i hi _ => ?_
    simp
  have hperm := h.map fun i => (writeAll xs writes)[i]?
  rw [map_map, hall] at hperm
  have hsome : ((writes.map Prod.fst).map some).Perm ((writeAll xs writes).map some) := hread ▸ hperm
  exact ((map_perm_map_iff (Option.some_injective α)).mp hsome).symm

end Rearrange

end TensorDE.Sorting
