import Mathlib.Tactic
import Mathlib.Data.List.Infix

namespace TensorDE.Segments

open List

variable {α : Type} {sep : α}

/-- The separator and the segment, for each segment. -/
def flat (sep : α) : List (List α) → List α
  | [] => []
  | x :: xs => sep :: (x ++ flat sep xs)

/-- A path from its segments; the root is the separator alone. -/
def render (sep : α) : List (List α) → List α
  | [] => [sep]
  | x :: xs => flat sep (x :: xs)

def Plain (sep : α) (segs : List (List α)) : Prop := ∀ x ∈ segs, x ≠ [] ∧ sep ∉ x

theorem Plain.tail {x : List α} {xs : List (List α)} (h : Plain sep (x :: xs)) : Plain sep xs :=
  fun y hy => h y (mem_cons_of_mem x hy)

variable {s t : List (List α)}

theorem Plain.append (h : Plain sep s) (h' : Plain sep t) : Plain sep (s ++ t) :=
  fun y hy => (mem_append.mp hy).elim (h y) (h' y)

theorem Plain.of_prefix (h : Plain sep t) (hp : s <+: t) : Plain sep s :=
  fun y hy => h y (hp.subset hy)

theorem flat_append (s t : List (List α)) : flat sep (s ++ t) = flat sep s ++ flat sep t := by
  induction s with
  | nil => rfl
  | cons x s ih => simp [flat, ih]

theorem render_of_ne_nil (h : s ≠ []) : render sep s = flat sep s := by
  cases s with
  | nil => exact absurd rfl h
  | cons x s => rfl

theorem render_concat (s : List (List α)) (x : List α) : render sep (s ++ [x]) = flat sep s ++ sep :: x := by
  rw [render_of_ne_nil (by simp), flat_append]
  simp [flat]

theorem segment_split {x y u v : List α} (hx : sep ∉ x) (h : x ++ u = y ++ sep :: v) :
    ∃ z, y = x ++ z ∧ u = z ++ sep :: v := by
  obtain ⟨z, hz, hu⟩ | ⟨z, hz, hu⟩ := append_eq_append_iff.mp h
  · exact ⟨z, hz, hu⟩
  · cases z with
    | nil => grind
    | cons c z => grind

theorem flat_eq_append {segs : List (List α)} (hp : Plain sep segs) {a v : List α} :
    flat sep segs = a ++ sep :: v ↔ ∃ s t, segs = s ++ t ∧ a = flat sep s ∧ flat sep t = sep :: v := by
  constructor
  · intro h
    induction segs generalizing a with
    | nil => simp [flat] at h
    | cons x xs ih =>
      cases a with
      | nil => exact ⟨[], x :: xs, rfl, rfl, h⟩
      | cons c a =>
        simp only [flat, cons_append, List.cons.injEq] at h
        obtain ⟨rfl, h⟩ := h
        obtain ⟨z, rfl, hz⟩ := segment_split (hp x (by simp)).2 h
        grind [hp.tail, flat]
  grind [flat_append]

theorem not_mem_of_flat_eq {z u : List α} (hz : sep ∉ z) (h : flat sep s = z ++ u) : z = [] := by
  cases z with
  | nil => rfl
  | cons c z =>
    cases s with
    | nil => simp [flat] at h
    | cons x s => grind [flat]

theorem flat_injective (hs : Plain sep s) (ht : Plain sep t) (h : flat sep s = flat sep t) : s = t := by
  induction s generalizing t with
  | nil =>
    cases t with
    | nil => rfl
    | cons y t => simp [flat] at h
  | cons x s ih =>
    cases t with
    | nil => simp [flat] at h
    | cons y t =>
      simp only [flat, List.cons.injEq, true_and] at h
      have hx := (hs x (by simp)).2
      have hy := (ht y (by simp)).2
      obtain ⟨z, rfl, hz⟩ | ⟨z, rfl, hz⟩ := append_eq_append_iff.mp h
      · grind [not_mem_of_flat_eq, hs.tail, ht.tail]
      grind [not_mem_of_flat_eq, hs.tail, ht.tail]

theorem render_injective (hs : Plain sep s) (ht : Plain sep t) (h : render sep s = render sep t) : s = t := by
  have hroot : ∀ {x : List α} {xs}, Plain sep (x :: xs) → [sep] ≠ render sep (x :: xs) := by
    intro x xs hp h
    simp only [render, flat, List.cons.injEq, true_and] at h
    exact (hp x (by simp)).1 (append_eq_nil_iff.mp h.symm).1
  cases s with
  | nil =>
    cases t with
    | nil => rfl
    | cons y t => exact absurd h (hroot ht)
  | cons x s =>
    cases t with
    | nil => exact absurd h.symm (hroot hs)
    | cons y t => exact flat_injective hs ht h

section Ancestors

variable [DecidableEq α]

/-- Every text that ends right before a separator, and the root. -/
def ancestors (sep : α) (path : List α) : List (List α) :=
  if path = [sep] then []
  else [sep] :: (path.zipIdx.drop 1).filterMap fun e => if e.1 = sep then some (path.take e.2) else none

theorem mem_ancestors {path a : List α} :
    a ∈ ancestors sep path ↔ path ≠ [sep] ∧ (a = [sep] ∨ a ≠ [] ∧ ∃ v, path = a ++ sep :: v) := by
  unfold ancestors
  by_cases hr : path = [sep]
  · simp [hr]
  · simp only [hr, if_false, mem_cons, ne_eq, not_false_eq_true, true_and]
    refine or_congr_right ?_
    have hmem : ∀ c i, (c, i) ∈ path.zipIdx.drop 1 ↔ 1 ≤ i ∧ path[i]? = some c := by
      cases path with
      | nil => simp
      | cons d path => grind
    rw [mem_filterMap]
    constructor
    · rintro ⟨⟨c, i⟩, hm, hc⟩
      obtain ⟨hi, hget⟩ := (hmem c i).mp hm
      obtain ⟨hlt, hget⟩ := List.getElem?_eq_some_iff.mp hget
      simp only [Option.ite_none_right_eq_some, Option.some.injEq] at hc
      obtain ⟨rfl, rfl⟩ := hc
      refine ⟨ne_nil_of_length_pos (by simp; omega), path.drop (i + 1), ?_⟩
      rw [← hget, getElem_cons_drop, take_append_drop]
    · rintro ⟨ha, v, rfl⟩
      exact ⟨(sep, a.length), (hmem _ _).mpr ⟨length_pos_iff.mpr ha, by simp⟩, by simp⟩

/-- The ancestors of a path are the paths of its proper prefixes. -/
theorem mem_ancestors_render {segs : List (List α)} (hp : Plain sep segs) {a : List α} :
    a ∈ ancestors sep (render sep segs) ↔ ∃ s, s <+: segs ∧ s ≠ segs ∧ a = render sep s := by
  rw [mem_ancestors]
  cases segs with
  | nil => grind [render]
  | cons x xs =>
    have hroot : render sep (x :: xs) ≠ [sep] := fun h => by
      simpa using render_injective hp (fun _ h => by simp at h) (t := []) h
    constructor
    · rintro ⟨_, rfl | ⟨ha, v, hv⟩⟩
      · exact ⟨[], nil_prefix, by simp, rfl⟩
      · obtain ⟨s, t, hst, rfl, ht⟩ := (flat_eq_append hp).mp hv
        refine ⟨s, ⟨t, hst.symm⟩, ?_, ?_⟩
        · rintro rfl
          have : t = [] := by simpa using hst
          simp [this, flat] at ht
        · rw [render_of_ne_nil]
          rintro rfl
          exact ha rfl
    · rintro ⟨s, ⟨t, hst⟩, hne, rfl⟩
      refine ⟨hroot, ?_⟩
      cases s with
      | nil => exact .inl rfl
      | cons y s =>
        refine .inr ⟨by simp [render, flat], ?_⟩
        cases t with
        | nil => exact absurd (by simpa using hst) hne
        | cons z t => grind [flat, render_of_ne_nil, flat_append]

end Ancestors

end TensorDE.Segments
