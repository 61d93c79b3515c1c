import TensorDE.Wm.Lifecycle

set_option linter.dupNamespace false

namespace TensorDE.Wm

open Effect Maps Forest CompositorWorld

variable {w : CompositorWorld} {view : ViewId}

def spawned (w : CompositorWorld) (view : ViewId) (workspace : WorkspaceId) : CompositorWorld :=
  { w with
    views := w.views.insert view ⟨workspace, .tiled, w.nextStackingOrder, false, none, none⟩
    nextStackingOrder := w.nextStackingOrder + 1 }

section Spawned

variable (hn : w.views.find view = none) (workspace : WorkspaceId)
include hn

theorem spawned_ownerOf : (spawned w view workspace).ownerOf = w.ownerOf := by
  funext v
  by_cases h : v = view <;> simp_all [spawned, ownerOf, viewPlacement, ViewPlacement.owner]

theorem spawned_isFocused : (spawned w view workspace).isFocused = w.isFocused := by
  funext v
  by_cases h : v = view <;> simp_all [spawned, isFocused]

omit hn in
variable (v : ViewId)

theorem spawned_viewWorkspace : (spawned w view workspace).viewWorkspace v =
    if v = view then some workspace else w.viewWorkspace v := by
  by_cases h : v = view <;> simp [spawned, viewWorkspace, h]

omit hn in
theorem spawned_stackingOrder : (spawned w view workspace).stackingOrder v =
    if v = view then some w.nextStackingOrder else w.stackingOrder v := by
  by_cases h : v = view <;> simp [spawned, stackingOrder, h]

theorem spawned_inv (h : Inv w) : Inv (spawned w view workspace) := by
  have hdead : w.viewWorkspace view = none := by simp [viewWorkspace, hn]
  have hquiet : w.isFocused view = false := by simp [isFocused, hn]
  refine ⟨?_, ?_, ?_, ?_, ?_⟩
  · intro v o ho
    rw [spawned_ownerOf hn] at ho
    grind [h.owned, spawned_viewWorkspace]
  · rw [spawned_ownerOf hn]
    exact h.forest
  · intro u v ws hu hv huw hvw
    rw [spawned_isFocused hn] at hu hv
    grind -linarith [spawned_viewWorkspace, h.focus]
  · intro u v n hu hv
    rw [spawned_stackingOrder] at hu hv
    split at hu <;> split at hv
    · simp_all
    · have := h.fresh v n hv
      simp at hu
      omega
    · have := h.fresh u n hu
      simp at hv
      omega
    · exact h.stacking u v n hu hv
  · intro v n hv
    rw [spawned_stackingOrder] at hv
    change n < w.nextStackingOrder + 1
    split at hv
    · simp at hv
      omega
    · have := h.fresh v n hv
      omega

end Spawned

theorem spawnView_safe (view : ViewId) (workspace : WorkspaceId) : Safe Inv (spawnView view workspace) := by
  intro w hi
  cases hd : w.views.find view with
  | some s => simp [spawnView, hd, Settled]
  | none =>
    by_cases hn : w.nextStackingOrder + 1 < 2 ^ 64
    · have h := (spawned_inv hd workspace hi).dropSnapshots (w.layoutSnapshots.erase workspace)
      simpa [spawnView, hd, hn, Settled, spawned, -Nat.reducePow] using h
    · simp [spawnView, hd, hn, Settled, -Nat.reducePow]

def removed (w : CompositorWorld) (view : ViewId) : CompositorWorld :=
  { w with views := w.views.erase view }

variable {s : ViewState}

theorem removed_find {v : ViewId} : (removed w view).views.find v = some s ↔ v ≠ view ∧ w.views.find v = some s := by
  by_cases h : v = view <;> simp [removed]

theorem removed_inv (h : Inv w) (hc : ∀ v, w.ownerOf v ≠ some view) : Inv (removed w view) := by
  have hown : ∀ v o, (removed w view).ownerOf v = some o → w.ownerOf v = some o := by
    intro v o ho
    obtain ⟨s, hs, hso⟩ := ownerOf_eq_some.mp ho
    exact ownerOf_eq_some.mpr ⟨s, (removed_find.mp hs).2, hso⟩
  have hws : ∀ v ws, (removed w view).viewWorkspace v = some ws → w.viewWorkspace v = some ws := by
    intro v ws hv
    obtain ⟨s, hs, hsw⟩ := viewWorkspace_eq_some.mp hv
    exact viewWorkspace_eq_some.mpr ⟨s, (removed_find.mp hs).2, hsw⟩
  have hfoc : ∀ v, (removed w view).isFocused v → w.isFocused v := by
    intro v hv
    by_cases hvv : v = view <;> simp_all [removed, isFocused]
  have hord : ∀ v n, (removed w view).stackingOrder v = some n → w.stackingOrder v = some n := by
    intro v n hv
    by_cases hvv : v = view <;> simp_all [removed, stackingOrder]
  refine ⟨?_, wellFounded_of_sub h.forest hown, ?_, ?_, ?_⟩
  · intro v o ho
    obtain ⟨s, hs, hso⟩ := ownerOf_eq_some.mp ho
    obtain ⟨ws, hv, hw⟩ := h.owned v o (hown v o ho)
    have hne : o ≠ view := fun he => hc v (he ▸ hown v o ho)
    refine ⟨ws, ?_, ?_⟩
    · simpa [removed, viewWorkspace, (removed_find.mp hs).1] using hv
    · simpa [removed, viewWorkspace, hne] using hw
  · exact fun u v ws hu hv huw hvw => h.focus u v ws (hfoc u hu) (hfoc v hv) (hws u ws huw) (hws v ws hvw)
  · exact fun u v n hu hv => h.stacking u v n (hord u n hu) (hord v n hv)
  · exact fun v n hv => h.fresh v n (hord v n hv)

theorem removeView_safe (view : ViewId) : Safe Inv (removeView view) := by
  intro w hi
  cases hc : w.attachedChildren view with
  | cons child rest => simp [removeView, hc, Settled]
  | nil =>
    cases hs : w.views.find view with
    | none => simp [removeView, hc, hs, Settled]
    | some s =>
      have hnone : ∀ v, w.ownerOf v ≠ some view := by
        intro v hv
        have hm := mem_attachedChildren.mpr hv
        simp [hc] at hm
      have h := (removed_inv hi hnone).dropSnapshots (w.layoutSnapshots.erase s.workspace)
      simpa [removeView, hc, hs, Settled, removed] using h

/-- The world after a family has left for `workspace`, taking the focus along. -/
def moved (w : CompositorWorld) (family : List ViewId) (workspace : WorkspaceId) : CompositorWorld :=
  let cleared := if family.any w.isFocused then w.focusedEntities workspace else []
  { w with views := (w.views.modifyAll cleared unfocus).modifyAll family (relocate workspace) }

variable (family : List ViewId) (workspace : WorkspaceId) (v : ViewId)

theorem moved_find :
    (moved w family workspace).views.find v = (w.views.find v).map fun s =>
      let s := if family.any w.isFocused && v ∈ w.focusedEntities workspace then unfocus s else s
      if v ∈ family then relocate workspace s else s := by
  rw [moved, Map.find_modifyAll _ _ _ (relocate_relocate workspace), Map.find_modifyAll _ _ _ unfocus_unfocus]
  cases hf : w.views.find v <;> cases hany : family.any w.isFocused <;>
    by_cases hm : v ∈ family <;> by_cases hc : v ∈ w.focusedEntities workspace <;> simp [hm, hc]

theorem moved_ownerOf : (moved w family workspace).ownerOf = w.ownerOf := by
  funext v
  rw [ownerOf, viewPlacement, moved_find, ownerOf, viewPlacement, Option.map_map]
  congr 2
  split <;> split <;> rfl

theorem moved_stackingOrder : (moved w family workspace).stackingOrder = w.stackingOrder := by
  funext v
  rw [stackingOrder, moved_find, stackingOrder, Option.map_map]
  congr 1
  split <;> split <;> rfl

theorem moved_viewWorkspace : (moved w family workspace).viewWorkspace v =
      if v ∈ family then (w.viewWorkspace v).map (fun _ => workspace) else w.viewWorkspace v := by
  rw [viewWorkspace, moved_find, viewWorkspace]
  cases w.views.find v with
  | none => simp
  | some s => by_cases hm : v ∈ family <;> simp only [hm, if_true, if_false] <;> split <;> rfl

theorem moved_isFocused : (moved w family workspace).isFocused v =
      (w.isFocused v && !(family.any w.isFocused && decide (v ∈ w.focusedEntities workspace))) := by
  rw [isFocused, moved_find]
  cases hf : w.views.find v with
  | none => simp [isFocused, hf]
  | some s => grind [isFocused, unfocus, relocate]

theorem moved_inv (h : Inv w) {family : List ViewId} (hroot : w.ownerOf view = none)
    (hfam : ∀ v, v ∈ family ↔ Below w.ownerOf view v) (workspace : WorkspaceId) : Inv (moved w family workspace) := by
  have hclosed : ∀ v o, w.ownerOf v = some o → (v ∈ family ↔ o ∈ family) := by
    intro v o ho
    rw [hfam, hfam]
    refine ⟨fun hb => ?_, fun hb => hb.tail ho⟩
    obtain rfl | ⟨u, hu, hb⟩ := hb.cases
    · rw [hroot] at ho
      cases ho
    · rw [ho] at hu
      cases hu
      exact hb
  refine ⟨?_, ?_, ?_, ?_, ?_⟩
  · intro v o ho
    rw [moved_ownerOf] at ho
    grind [h.owned, moved_viewWorkspace]
  · rw [moved_ownerOf]
    exact h.forest
  · -- A focused member and a focused stranger can only meet in the target workspace,
    -- where the strangers have just lost the focus.
    have hmeet : ∀ u v ws, u ∈ family → v ∉ family → (moved w family workspace).isFocused u →
        (moved w family workspace).isFocused v → (moved w family workspace).viewWorkspace u = some ws →
        (moved w family workspace).viewWorkspace v = some ws → False := by
      intro u v ws hum hvm hu hv huw hvw
      rw [moved_isFocused, Bool.and_eq_true] at hu hv
      rw [moved_viewWorkspace] at huw hvw
      simp only [hum, hvm, if_true, if_false, Option.map_eq_some_iff] at huw hvw
      obtain ⟨_, _, rfl⟩ := huw
      have hany : family.any w.isFocused = true := List.any_eq_true.mpr ⟨u, hum, hu.1⟩
      have hcl : v ∈ w.focusedEntities workspace := mem_focusedEntities.mpr ⟨hvw, hv.1⟩
      simp [hany, hcl] at hv
    grind -linarith [h.below_workspace, moved_isFocused, moved_viewWorkspace, Option.map_eq_some_iff, h.focus]
  · rw [moved_stackingOrder]
    exact h.stacking
  · rw [moved_stackingOrder]
    exact h.fresh

/-- A move fails before its first write or carries the whole family over. -/
theorem moveView_run (hi : Inv w) (view : ViewId) (workspace : WorkspaceId) :
    (∃ e, moveView view workspace w = .error (.error e) w) ∨
      ∃ w', moveView view workspace w = .ok () w' ∧ Inv w' ∧ ∃ s, w'.views.find view = some s := by
  cases hs : w.views.find view with
  | none => exact .inl ⟨.missingViewId view, by simp [moveView, hs]⟩
  | some s =>
    cases ho : s.placement.owner with
    | some o => exact .inl ⟨.attachedViewCannotMove view, by simp [moveView, hs, ho]⟩
    | none =>
      refine .inr ?_
      by_cases hw : s.workspace = workspace
      · exact ⟨w, by simp [moveView, hs, ho, hw], hi, s, hs⟩
      · obtain ⟨family, hf, hmem⟩ := viewFamily_run hi ⟨s, hs⟩
        have hrel := relocateMembers_run workspace family ⟨w.views.modifyAll
            (if family.any w.isFocused then w.focusedEntities workspace else []) unfocus,
            w.layoutSnapshots, w.nextStackingOrder⟩ (by
          intro v hv
          obtain ⟨t, ht⟩ := below_live ⟨s, hs⟩ ((hmem v).mp hv)
          grind [Map.find_modifyAll, unfocus_unfocus])
        have hroot : w.ownerOf view = none := by simp [ownerOf, viewPlacement, hs, ho]
        have hinv := (moved_inv hi hroot hmem workspace).dropSnapshots
          ((w.layoutSnapshots.erase s.workspace).erase workspace)
        refine ⟨_, ?_, hinv, ?_⟩
        · simp [-List.any_eq_true, moveView, hs, ho, hw, hf, hrel, moved]
        · exact ⟨_, by rw [moved_find, hs]; rfl⟩

theorem moveView_safe (view : ViewId) (workspace : WorkspaceId) : Safe Inv (moveView view workspace) := by
  intro w hi
  obtain ⟨e, he⟩ | ⟨w', hw, hi', _⟩ := moveView_run hi view workspace
  · rw [he]
    rfl
  · rw [hw]
    exact hi'

def placed (w : CompositorWorld) (view : ViewId) (placement : ViewPlacement) : CompositorWorld :=
  { w with views := w.views.modify view fun s => { s with placement := placement } }

theorem placed_inv (h : Inv w) (hs : w.views.find view = some s) (placement : ViewPlacement)
    (hown : ∀ o, placement.owner = some o →
      w.viewWorkspace o = some s.workspace ∧ ¬ Below w.ownerOf view o) : Inv (placed w view placement) := by
  have howner : (placed w view placement).ownerOf = Function.update w.ownerOf view placement.owner := by
    funext v
    by_cases hv : v = view
    · subst hv
      simp [placed, ownerOf, viewPlacement, hs]
    · simp [placed, ownerOf, viewPlacement, hv]
  have hws : (placed w view placement).viewWorkspace = w.viewWorkspace := by
    funext v
    by_cases hv : v = view <;> simp [placed, viewWorkspace, hv, Function.comp_def]
  have hfoc : (placed w view placement).isFocused = w.isFocused := by
    funext v
    by_cases hv : v = view <;> simp [placed, isFocused, hv, Function.comp_def]
  have hord : (placed w view placement).stackingOrder = w.stackingOrder := by
    funext v
    by_cases hv : v = view <;> simp [placed, stackingOrder, hv, Function.comp_def]
  refine ⟨?_, ?_, ?_, ?_, ?_⟩
  · intro v o ho
    rw [hws]
    rw [howner] at ho
    by_cases hv : v = view
    · subst hv
      rw [Function.update_self] at ho
      exact ⟨s.workspace, viewWorkspace_eq_some.mpr ⟨s, hs, rfl⟩, (hown o ho).1⟩
    · rw [Function.update_of_ne hv] at ho
      exact h.owned v o ho
  · rw [howner]
    grind [wellFounded_update, h.forest, wellFounded_of_sub]
  · rw [hws, hfoc]
    exact h.focus
  · rw [hord]
    exact h.stacking
  · rw [hord]
    exact h.fresh

theorem checkPlacement_run (w : CompositorWorld) (view : ViewId) (workspace : WorkspaceId) (placement : ViewPlacement) :
    (∃ e, checkPlacement view workspace placement w = .error (.error e) w) ∨
      checkPlacement view workspace placement w = .ok () w ∧ ∀ o, placement.owner = some o →
        w.viewWorkspace o = some workspace ∧ ¬ Below w.ownerOf view o := by
  cases hp : placement.owner with
  | none => exact .inr ⟨by simp [checkPlacement, hp], by simp⟩
  | some o =>
    by_cases hself : o = view
    · exact .inl ⟨.selfAttachment view, by simp [checkPlacement, hp, hself]⟩
    · cases ho : w.views.find o with
      | none => exact .inl ⟨.missingViewId o, by simp [checkPlacement, hp, hself, ho]⟩
      | some t =>
        by_cases hw : t.workspace = workspace
        · cases hc : w.attachmentWouldCycle view o with
          | true => exact .inl ⟨.attachmentCycle view o, by simp [checkPlacement, hp, hself, ho, hw, hc]⟩
          | false =>
            refine .inr ⟨by simp [checkPlacement, hp, hself, ho, hw, hc], ?_⟩
            rintro _ ⟨⟩
            exact ⟨viewWorkspace_eq_some.mpr ⟨t, ho, hw⟩, not_below_of_wouldCycleLoop hc⟩
        · exact .inl ⟨.crossWorkspaceAttachment view o, by simp [checkPlacement, hp, hself, ho, hw]⟩

theorem setViewPlacement_safe (view : ViewId) (placement : ViewPlacement) :
    Safe Inv (setViewPlacement view placement) := by
  intro w hi
  cases hs : w.views.find view with
  | none => simp [setViewPlacement, hs, Settled]
  | some s =>
    by_cases heq : s.placement = placement
    · simpa [setViewPlacement, hs, heq, Settled] using hi
    · obtain ⟨e, he⟩ | ⟨hok, hown⟩ := checkPlacement_run w view s.workspace placement
      · simp [setViewPlacement, hs, heq, he, Settled]
      · have h := (placed_inv hi hs placement hown).dropSnapshots (w.layoutSnapshots.erase s.workspace)
        simpa [setViewPlacement, hs, heq, hok, Settled, placed] using h

/-- The world in which the focus of `view`'s workspace has gone over to `view`. -/
def refocused (w : CompositorWorld) (view : ViewId) (workspace : WorkspaceId) : CompositorWorld :=
  { w with
    views := (w.views.modifyAll (w.focusedEntities workspace) unfocus).modify view
      (fun s => { s with focused := true }) }

theorem refocused_inv (h : Inv w) (hs : w.views.find view = some s) : Inv (refocused w view s.workspace) := by
  have hfind : ∀ v, (refocused w view s.workspace).views.find v = (w.views.find v).map fun t =>
      let t := if v ∈ w.focusedEntities s.workspace then unfocus t else t
      if v = view then { t with focused := true } else t := by
    intro v
    rw [refocused, Map.find_modify, Map.find_modifyAll _ _ _ unfocus_unfocus]
    cases w.views.find v with
    | none => simp
    | some t => grind
  have howner : (refocused w view s.workspace).ownerOf = w.ownerOf := by
    funext v
    rw [ownerOf, viewPlacement, hfind, ownerOf, viewPlacement, Option.map_map]
    congr 2
    split <;> split <;> rfl
  have hws : (refocused w view s.workspace).viewWorkspace = w.viewWorkspace := by
    funext v
    rw [viewWorkspace, hfind, viewWorkspace, Option.map_map]
    congr 1
    split <;> split <;> rfl
  have hord : (refocused w view s.workspace).stackingOrder = w.stackingOrder := by
    funext v
    rw [stackingOrder, hfind, stackingOrder, Option.map_map]
    congr 1
    split <;> split <;> rfl
  have hfoc : ∀ v, (refocused w view s.workspace).isFocused v →
      v = view ∨ w.isFocused v ∧ w.viewWorkspace v ≠ some s.workspace := by
    intro v hv
    by_cases hvv : v = view
    · exact .inl hvv
    · refine .inr ?_
      rw [isFocused, hfind] at hv
      cases hf : w.views.find v with
      | none => simp [hf] at hv
      | some t =>
        by_cases hm : v ∈ w.focusedEntities s.workspace
        · simp [hf, hm, hvv, unfocus] at hv
        · have hft : w.isFocused v := by simpa [hm, hvv, isFocused] using hv
          exact ⟨hft, fun hw => hm (mem_focusedEntities.mpr ⟨hw, hft⟩)⟩
  have hview : w.viewWorkspace view = some s.workspace := viewWorkspace_eq_some.mpr ⟨s, hs, rfl⟩
  refine ⟨?_, ?_, ?_, ?_, ?_⟩
  · rw [howner, hws]
    exact h.owned
  · rw [howner]
    exact h.forest
  · rw [hws]
    grind -linarith [h.focus]
  · rw [hord]
    exact h.stacking
  · rw [hord]
    exact h.fresh

theorem focusView_safe (view : ViewId) : Safe Inv (focusView view) := by
  intro w hi
  cases hs : w.views.find view with
  | none => simp [focusView, hs, Settled]
  | some s =>
    cases hf : s.focused with
    | true => simpa [focusView, hs, hf, Settled] using hi
    | false =>
      have hri := refocused_inv hi hs
      have hlive : ∃ t, (refocused w view s.workspace).views.find view = some t := by
        refine Option.isSome_iff_exists.mp ?_
        rw [refocused, Map.find_modify, Map.find_modifyAll _ _ _ unfocus_unfocus, hs]
        split <;> split <;> rfl
      have hrun : focusView view w =
          (raiseViewFamily view >>= fun _ => dropSnapshot s.workspace) (refocused w view s.workspace) := by
        simp [focusView, hs, hf, refocused]
      rw [hrun, bind_run]
      obtain ⟨w', hw, _, hi'⟩ | ⟨w', hw⟩ := raiseViewFamily_run hri hlive
      · rw [hw]
        exact hi'.dropSnapshots _
      · rw [hw]
        trivial

theorem minimizedFrom_inv (h : Inv w) (view : ViewId) (origin : Option WorkspaceId) :
    Inv { w with views := w.views.modify view fun v => { v with minimizedFrom := origin } } := by
  have hagree : Agree w
      { w with views := w.views.modify view fun v => { v with minimizedFrom := origin } } := by
    refine ⟨?_, ?_, ?_⟩ <;> funext v <;> by_cases hv : v = view <;>
      simp [ownerOf, viewPlacement, viewWorkspace, isFocused, hv, Function.comp_def]
  have hord : CompositorWorld.stackingOrder
      { w with views := w.views.modify view fun v => { v with minimizedFrom := origin } } = w.stackingOrder := by
    funext v
    by_cases hv : v = view <;> simp [stackingOrder, hv, Function.comp_def]
  refine hagree.inv h ?_ ?_
  · rw [hord]
    exact h.stacking
  · rw [hord]
    exact h.fresh

theorem minimizeView_safe (view : ViewId) (hidden : WorkspaceId) : Safe Inv (minimizeView view hidden) := by
  intro w hi
  cases hs : w.views.find view with
  | none => simp [minimizeView, hs, Settled]
  | some s =>
    cases hm : s.minimizedFrom with
    | some origin => simpa [minimizeView, hs, hm, Settled] using hi
    | none =>
      by_cases hw : s.workspace = hidden
      · simpa [minimizeView, hs, hw, Settled] using hi
      · obtain ⟨e, he⟩ | ⟨w', hok, hi', t, ht⟩ := moveView_run hi view hidden
        · simp [minimizeView, hs, hm, hw, he, Settled]
        · simpa [minimizeView, hs, hm, hw, hok, ht, Settled] using minimizedFrom_inv hi' view _

theorem restoreMinimizedView_safe (view : ViewId) : Safe Inv (restoreMinimizedView view) := by
  intro w hi
  cases hs : w.views.find view with
  | none => simp [restoreMinimizedView, hs, Settled]
  | some s =>
    cases hm : s.minimizedFrom with
    | none => simpa [restoreMinimizedView, hs, hm, Settled] using hi
    | some origin =>
      obtain ⟨e, he⟩ | ⟨w', hok, hi', _⟩ := moveView_run hi view origin
      · simp [restoreMinimizedView, hs, hm, he, Settled]
      · simpa [restoreMinimizedView, hs, hm, hok, Settled] using hi'

theorem exec_safe (c : Command) : Safe Inv (exec c) := by
  cases c with
  | spawnView view workspace => exact (spawnView_safe view workspace).map _
  | removeView view => exact (removeView_safe view).map _
  | moveView view workspace => exact (moveView_safe view workspace).map _
  | setViewPlacement view placement => exact (setViewPlacement_safe view placement).map _
  | focusView view => exact (focusView_safe view).map _
  | minimizeView view hidden => exact (minimizeView_safe view hidden).map _
  | restoreMinimizedView view => exact (restoreMinimizedView_safe view).map _

theorem new_inv : Inv CompositorWorld.new where
  owned v o h := by simp [ownerOf, viewPlacement, CompositorWorld.new] at h
  forest := ⟨fun v => ⟨v, fun u h => by simp [Owns, ownerOf, viewPlacement, CompositorWorld.new] at h⟩⟩
  focus u v ws hu := by simp [isFocused, CompositorWorld.new] at hu
  stacking u v n h := by simp [stackingOrder, CompositorWorld.new] at h
  fresh v n h := by simp [stackingOrder, CompositorWorld.new] at h

theorem reachable_inv (h : Reachable exec CompositorWorld.new w) : Inv w :=
  h.invariant new_inv exec_safe

/-- Every world a sequence of lifecycle calls can produce has an acyclic
attachment relation inside workspaces, one focus per workspace and a strict
stacking order; a call that returns an error changes nothing, and no call hangs. -/
theorem reachable_world_consistent (w : CompositorWorld) (h : Reachable exec CompositorWorld.new w) :
    (∀ v, ¬ Relation.TransGen (fun u v => w.ownerOf v = some u) v v) ∧
    (∀ v o, w.ownerOf v = some o → ∃ ws, w.viewWorkspace v = some ws ∧ w.viewWorkspace o = some ws) ∧
    (∀ u v ws, w.isFocused u → w.isFocused v → w.viewWorkspace u = some ws → w.viewWorkspace v = some ws → u = v) ∧
    (∀ u v n, w.stackingOrder u = some n → w.stackingOrder v = some n → u = v) ∧
    (∀ v n, w.stackingOrder v = some n → n < w.nextStackingOrder) ∧
    (∀ c e w', exec c w = .error (.error e) w' → w' = w) ∧ ∀ c w', exec c w ≠ .error .diverge w' := by
  have hi := reachable_inv h
  refine ⟨acyclic hi.forest, hi.owned, hi.focus, hi.stacking, hi.fresh, ?_, ?_⟩
  · intro c e w' hx
    have hs := exec_safe c w hi
    rwa [hx] at hs
  · intro c w' hx
    have hs := exec_safe c w hi
    rwa [hx] at hs

/-- Two views in one workspace, the second attached to the first, and an attempt
to close the cycle that is turned down. -/
theorem dialog_world_consistent : ∃ w, Reachable exec CompositorWorld.new w ∧ w.ownerOf 2 = some 1 ∧
      ∀ w', exec (.setViewPlacement 1 (.attached 2 ⟨0, 0⟩)) w = .error (.error (.attachmentCycle 1 2)) w' → w' = w := by
  have h1 := Reachable.ok (c := .spawnView 1 7) (Reachable.init : Reachable exec CompositorWorld.new _) rfl
  have h2 := Reachable.ok (c := .spawnView 2 7) h1 rfl
  have h3 := Reachable.ok (c := .setViewPlacement 2 (.attached 1 ⟨0, 0⟩)) h2 rfl
  have hall := reachable_world_consistent _ h3
  exact ⟨_, h3, rfl, hall.2.2.2.2.2.1 _ _⟩

end TensorDE.Wm
