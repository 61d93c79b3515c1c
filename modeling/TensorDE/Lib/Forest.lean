import Mathlib.Logic.Relation
import Mathlib.Order.WellFounded
import Mathlib.Data.Finset.Card

namespace TensorDE.Forest

open List

variable {α : Type} (parent : α → Option α)

def Owns (u v : α) : Prop := parent v = some u

/-- Nodes below `v`, with `v` itself. -/
def Below (v w : α) : Prop := Relation.ReflTransGen (Owns parent) v w

variable {parent}

theorem Below.refl (v : α) : Below parent v v := Relation.ReflTransGen.refl

theorem Below.tail {u v w : α} (h : Below parent u v) (hw : parent w = some v) : Below parent u w :=
  Relation.ReflTransGen.tail h hw

variable {u v : α}

theorem Below.cases (h : Below parent u v) : v = u ∨ ∃ w, parent v = some w ∧ Below parent u w := by
  cases h with
  | refl => exact .inl rfl
  | tail hb ho => exact .inr ⟨_, ho, hb⟩

section

variable (hwf : WellFounded (Owns parent))
include hwf

theorem not_below_parent (h : parent v = some u) : ¬ Below parent v u := by
  intro hb
  have hc : Relation.TransGen (Owns parent) v v := Relation.TransGen.tail' hb h
  exact hwf.transGen.irrefl.irrefl v hc

theorem acyclic (v : α) : ¬ Relation.TransGen (Owns parent) v v :=
  hwf.transGen.irrefl.irrefl v

/-- Giving `v` the parent `o` keeps the forest well founded when `o` is not below `v`. -/
theorem wellFounded_update [DecidableEq α] {v o : α}
    (ho : ¬ Below parent v o) : WellFounded (Owns (Function.update parent v (some o))) := by
  have hold : ∀ w, ¬ Below parent v w → Acc (Owns (Function.update parent v (some o))) w := by
    intro w
    induction w using hwf.induction with
    | _ w ih =>
      intro hw
      refine ⟨w, fun u hu => ?_⟩
      have hne : w ≠ v := fun h => hw (h ▸ Below.refl w)
      simp only [Owns, Function.update_of_ne hne] at hu
      exact ih u hu fun hb => hw (hb.tail hu)
  have hv : Acc (Owns (Function.update parent v (some o))) v := by
    refine ⟨v, fun u hu => ?_⟩
    simp only [Owns, Function.update_self, Option.some.injEq] at hu
    exact hu ▸ hold o ho
  refine ⟨fun w => ?_⟩
  induction w using hwf.induction with
  | _ w ih =>
    by_cases h : w = v
    · exact h ▸ hv
    · refine ⟨w, fun u hu => ?_⟩
      simp only [Owns, Function.update_of_ne h] at hu
      exact ih u hu

theorem wellFounded_of_sub {parent' : α → Option α}
    (h : ∀ v u, parent' v = some u → parent v = some u) : WellFounded (Owns parent') :=
  Subrelation.wf (fun {_ _} ho => h _ _ ho) hwf

end

open Classical in
/-- In a finite forest the number of ancestors bounds every walk towards the root. -/
theorem exists_rank (hwf : WellFounded (Owns parent)) (V : Finset α) :
    ∃ rank : α → Nat, (∀ v ∈ V, rank v ≤ V.card) ∧ (∀ v ∈ V, 0 < rank v) ∧
      ∀ v ∈ V, ∀ u, parent v = some u → rank u < rank v := by
  refine ⟨fun v => (V.filter (fun u => Below parent u v)).card, fun v _ => Finset.card_filter_le _ _, ?_, ?_⟩
  · intro v hv
    exact Finset.card_pos.mpr ⟨v, Finset.mem_filter.mpr ⟨hv, Below.refl v⟩⟩
  · intro v hv u hu
    apply Finset.card_lt_card
    refine (Finset.ssubset_iff_of_subset ?_).mpr ⟨v, Finset.mem_filter.mpr ⟨hv, Below.refl v⟩, ?_⟩
    · intro w hw
      rw [Finset.mem_filter] at hw ⊢
      exact ⟨hw.1, hw.2.tail hu⟩
    · intro hm
      exact not_below_parent hwf hu (Finset.mem_filter.mp hm).2

/-- Breadth-first collection: read the element at `index`, append its children. -/
def grow (children : α → List α) : Nat → List α → Nat → Option (List α)
  | 0, _, _ => none
  | fuel + 1, family, index =>
    match family[index]? with
    | none => some family
    | some owner => grow children fuel (family ++ children owner) (index + 1)

structure Growing (parent : α → Option α) (root : α) (family : List α) (index : Nat) : Prop where
  nodup : family.Nodup
  root_mem : root ∈ family
  bound : index ≤ family.length
  below : ∀ v ∈ family, Below parent root v
  linked : ∀ v ∈ family, v = root ∨ ∃ u ∈ family.take index, parent v = some u
  closed : ∀ u ∈ family.take index, ∀ v, parent v = some u → v ∈ family

theorem Growing.start (root : α) : Growing parent root [root] 0 where
  nodup := nodup_singleton root
  root_mem := by simp
  bound := by simp
  below v hv := by
    rw [mem_singleton] at hv
    exact hv ▸ Below.refl v
  linked v hv := .inl (mem_singleton.mp hv)
  closed u hu := by simp at hu

section Grow

variable {children : α → List α} (hchild : ∀ u v, v ∈ children u ↔ parent v = some u)
include hchild

variable {root owner : α} {family : List α} {index : Nat}

theorem Growing.fresh (hwf : WellFounded (Owns parent))
    (h : Growing parent root family index) (ho : family[index]? = some owner) {v : α}
    (hv : v ∈ children owner) : v ∉ family := by
  intro hm
  have hp := (hchild owner v).mp hv
  have howner := mem_of_getElem? ho
  rcases h.linked v hm with rfl | ⟨u, hu, hpu⟩
  · exact not_below_parent hwf hp (h.below owner howner)
  · obtain ⟨i, hi, he⟩ := mem_take_iff_getElem.mp hu
    grind [List.Nodup.getElem_inj_iff, h.nodup]

theorem Growing.step (hwf : WellFounded (Owns parent)) (hnd : ∀ u, (children u).Nodup) (h : Growing parent root family index)
    (ho : family[index]? = some owner) : Growing parent root (family ++ children owner) (index + 1) := by
  obtain ⟨hlt, he⟩ := List.getElem?_eq_some_iff.mp ho
  have howner := mem_of_getElem? ho
  have htake : (family ++ children owner).take (index + 1) = family.take index ++ [owner] := by
    rw [take_append_of_le_length (by omega), ← he, take_append_getElem hlt]
  refine ⟨?_, ?_, ?_, ?_, ?_, ?_⟩
  · refine nodup_append.mpr ⟨h.nodup, hnd owner, fun a ha b hb hab => ?_⟩
    exact Growing.fresh hchild hwf h ho hb (hab ▸ ha)
  · exact mem_append_left _ h.root_mem
  · rw [length_append]
    omega
  · intro v hv
    rcases mem_append.mp hv with hv | hv
    · exact h.below v hv
    · exact (h.below owner howner).tail ((hchild owner v).mp hv)
  · grind [h.linked]
  grind [h.closed]

omit hchild in
theorem Growing.done (h : Growing parent root family index)
    (hend : family[index]? = none) (v : α) : v ∈ family ↔ Below parent root v := by
  refine ⟨h.below v, fun hb => ?_⟩
  have hlen : family.length ≤ index := List.getElem?_eq_none_iff.mp hend
  induction hb with
  | refl => exact h.root_mem
  | tail _ hp ih => exact h.closed _ (by rwa [take_of_length_le hlen]) _ hp

theorem grow_of_growing (hwf : WellFounded (Owns parent)) (hnd : ∀ u, (children u).Nodup) (V : Finset α)
    (hV : ∀ v u, parent v = some u → v ∈ V) (hroot : root ∈ V) (fuel : Nat) (h : Growing parent root family index)
    (hf : V.card + 1 ≤ fuel + index) :
    ∃ out, grow children fuel family index = some out ∧ ∀ v, v ∈ out ↔ Below parent root v := by
  induction fuel generalizing family index with
  | zero =>
    have hsub : ∀ v ∈ family, v ∈ V := by
      intro v hv
      rcases h.linked v hv with rfl | ⟨u, _, hp⟩
      · exact hroot
      · exact hV v u hp
    have hcard : family.length ≤ V.card := by
      classical
      rw [← toFinset_card_of_nodup h.nodup]
      exact Finset.card_le_card fun v hv => hsub v (mem_toFinset.mp hv)
    have := h.bound
    omega
  | succ fuel ih =>
    rw [grow]
    cases ho : family[index]? with
    | none => exact ⟨family, rfl, h.done ho⟩
    | some owner =>
      obtain ⟨out, hout, hmem⟩ := ih (h.step hchild hwf hnd ho) (by omega)
      exact ⟨out, hout, hmem⟩

theorem grow_spec (hwf : WellFounded (Owns parent)) (hnd : ∀ u, (children u).Nodup) (V : Finset α)
    (hV : ∀ v u, parent v = some u → v ∈ V) (hroot : root ∈ V) :
    ∃ out, grow children (V.card + 1) [root] 0 = some out ∧ ∀ v, v ∈ out ↔ Below parent root v :=
  grow_of_growing hchild hwf hnd V hV hroot (V.card + 1) (Growing.start root) (by omega)

end Grow

end TensorDE.Forest
