import TensorDE.Wm.World

set_option linter.dupNamespace false

namespace TensorDE.Wm

open Effect Maps Forest CompositorWorld List

variable {w w' : CompositorWorld} {view : ViewId} {α : Type}

structure Inv (w : CompositorWorld) : Prop where
  owned : ∀ v o, w.ownerOf v = some o → ∃ ws, w.viewWorkspace v = some ws ∧ w.viewWorkspace o = some ws
  forest : WellFounded (Owns w.ownerOf)
  focus : ∀ u v ws, w.isFocused u → w.isFocused v → w.viewWorkspace u = some ws →
    w.viewWorkspace v = some ws → u = v
  stacking : ∀ u v n, w.stackingOrder u = some n → w.stackingOrder v = some n → u = v
  fresh : ∀ v n, w.stackingOrder v = some n → n < w.nextStackingOrder

variable {v o : ViewId}

theorem ownerOf_eq_some : w.ownerOf v = some o ↔ ∃ s, w.views.find v = some s ∧ s.placement.owner = some o := by
  cases h : w.views.find v <;> simp [ownerOf, viewPlacement, h]

variable {ws : WorkspaceId}

theorem viewWorkspace_eq_some : w.viewWorkspace v = some ws ↔ ∃ s, w.views.find v = some s ∧ s.workspace = ws := by
  simp [viewWorkspace]

theorem mem_attachedChildren : v ∈ w.attachedChildren o ↔ w.ownerOf v = some o := by
  rw [attachedChildren, mem_mergeSort, mem_filter, decide_eq_true_iff, and_iff_right_iff_imp]
  intro h
  obtain ⟨s, hs, _⟩ := (ownerOf_eq_some).mp h
  exact Map.mem_keys.mpr ⟨s, hs⟩

theorem attachedChildren_nodup (o : ViewId) : (w.attachedChildren o).Nodup :=
  (mergeSort_perm _ _).nodup_iff.mpr (w.views.keys_nodup.filter _)

theorem mem_focusedEntities : v ∈ w.focusedEntities ws ↔ w.viewWorkspace v = some ws ∧ w.isFocused v := by
  rw [focusedEntities, mem_filter, Bool.and_eq_true, decide_eq_true_iff, and_iff_right_iff_imp]
  rintro ⟨h, _⟩
  obtain ⟨s, hs, _⟩ := (viewWorkspace_eq_some).mp h
  exact Map.mem_keys.mpr ⟨s, hs⟩

theorem Inv.owner_live (h : Inv w) (ho : w.ownerOf v = some o) : ∃ s, w.views.find o = some s := by
  grind [h.owned, viewWorkspace_eq_some]

variable {u : ViewId}

theorem below_live (hu : ∃ s, w.views.find u = some s) (hb : Below w.ownerOf u v) : ∃ s, w.views.find v = some s := by
  grind [hb.cases, ownerOf_eq_some]

section

variable (h : Inv w)
include h

theorem Inv.above_live (hv : ∃ s, w.views.find v = some s)
    (hb : Below w.ownerOf u v) : ∃ s, w.views.find u = some s := by
  induction hb with
  | refl => exact hv
  | tail _ ho ih => exact ih (h.owner_live ho)

theorem Inv.below_workspace (hb : Below w.ownerOf u v) : w.viewWorkspace v = w.viewWorkspace u := by
  induction hb with
  | refl => rfl
  | tail _ ho ih =>
    obtain ⟨ws, hv, hu⟩ := h.owned _ _ ho
    rw [hv, ← hu, ih]

theorem viewFamily_run (hroot : ∃ s, w.views.find view = some s) :
    ∃ family, viewFamily view w = .ok family w ∧ ∀ v, v ∈ family ↔ Below w.ownerOf view v := by
  obtain ⟨family, hg, hm⟩ := grow_spec
    (fun u v => (mem_attachedChildren : v ∈ w.attachedChildren u ↔ w.ownerOf v = some u)) h.forest
    attachedChildren_nodup w.views.keySet
    (fun v u hu => by
      obtain ⟨s, hs, _⟩ := (ownerOf_eq_some).mp hu
      exact Map.mem_keySet.mpr ⟨s, hs⟩) (Map.mem_keySet.mpr hroot)
  rw [Map.card_keySet] at hg
  refine ⟨family, ?_, hm⟩
  simp [viewFamily, hg]

theorem tiledAncestorLoop_isSome {rank : ViewId → Nat} (hpos : ∀ v ∈ w.views.keySet, 0 < rank v)
    (hlt : ∀ v ∈ w.views.keySet, ∀ u, w.ownerOf v = some u → rank u < rank v) (rounds : Nat) (hv : v ∈ w.views.keySet) (hr : rank v ≤ rounds) :
    ∃ root, w.tiledAncestorLoop rounds v = some root ∧ Below w.ownerOf root v := by
  induction rounds generalizing v with
  | zero =>
    have := hpos v hv
    omega
  | succ rounds ih =>
    obtain ⟨s, hs⟩ := Map.mem_keySet.mp hv
    cases ho : s.placement.owner with
    | none => exact ⟨v, by simp [tiledAncestorLoop, viewPlacement, hs, ho], Below.refl v⟩
    | some o =>
      have hown : w.ownerOf v = some o := (ownerOf_eq_some).mpr ⟨s, hs, ho⟩
      have := hlt v hv o hown
      obtain ⟨root, hroot, hb⟩ := ih (Map.mem_keySet.mpr (h.owner_live hown)) (by omega)
      exact ⟨root, by simp [tiledAncestorLoop, viewPlacement, hs, ho, hroot], hb.tail hown⟩

theorem tiledAncestor_isSome (hv : ∃ s, w.views.find view = some s) :
    ∃ root, w.tiledAncestor view = some root ∧ Below w.ownerOf root view := by
  obtain ⟨rank, hle, hpos, hlt⟩ := exists_rank h.forest w.views.keySet
  have hmem := Map.mem_keySet.mpr hv
  refine tiledAncestorLoop_isSome h hpos hlt _ hmem ?_
  rw [← Map.card_keySet]
  exact hle view hmem

end

theorem not_below_of_wouldCycleLoop {rounds : Nat} {current : ViewId}
    (h : w.wouldCycleLoop view rounds current = false) : ¬ Below w.ownerOf view current := by
  induction rounds generalizing current with
  | zero => simp [wouldCycleLoop] at h
  | succ rounds ih =>
    rw [wouldCycleLoop] at h
    split at h
    · cases h
    · next hne =>
      intro hb
      obtain heq | ⟨o, ho, hb⟩ := hb.cases
      · exact hne heq
      · rw [ho] at h
        exact ih h hb

end TensorDE.Wm
