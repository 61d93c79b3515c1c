import TensorDE.Wm.Invariant

set_option linter.dupNamespace false

namespace TensorDE.Wm

open Effect Maps Forest CompositorWorld

variable {w w' : CompositorWorld} {view : ViewId}

@[simp] theorem entityFor_run (view : ViewId) (w : CompositorWorld) :
    entityFor view w = match w.views.find view with
      | some s => .ok s w
      | none => .error (.error (.missingViewId view)) w := by
  cases h : w.views.find view <;> simp [entityFor, h]

@[simp] theorem allocateStackingOrder_run (w : CompositorWorld) :
    allocateStackingOrder w =
      if w.nextStackingOrder + 1 < 2 ^ 64 then
        .ok w.nextStackingOrder { w with nextStackingOrder := w.nextStackingOrder + 1 }
      else .error .panic w := by
  by_cases h : w.nextStackingOrder + 1 < 2 ^ 64 <;> simp [allocateStackingOrder, h, -Nat.reducePow]

@[simp] theorem updateView_run (view : ViewId) (f : ViewState → ViewState) (w : CompositorWorld) :
    updateView view f w = .ok () { w with views := w.views.modify view f } := rfl

variable (workspace : WorkspaceId)

@[simp] theorem dropSnapshot_run (w : CompositorWorld) :
    dropSnapshot workspace w = .ok () { w with layoutSnapshots := w.layoutSnapshots.erase workspace } := rfl

variable (s : ViewState)

theorem unfocus_unfocus : unfocus (unfocus s) = unfocus s := rfl

theorem relocate_relocate :
    relocate workspace (relocate workspace s) = relocate workspace s := rfl

variable (l : List ViewId)

@[simp] theorem removeFocused_run (w : CompositorWorld) :
    removeFocused l w = .ok () { w with views := w.views.modifyAll l unfocus } := by
  induction l generalizing w with
  | nil => rfl
  | cons v l ih => simp [removeFocused, ih]

theorem relocateMembers_run (w : CompositorWorld)
    (hl : ∀ v ∈ l, ∃ s, w.views.find v = some s) : relocateMembers workspace l w =
      .ok () { w with views := w.views.modifyAll l (relocate workspace) } := by
  induction l generalizing w with
  | nil => rfl
  | cons v l ih =>
    obtain ⟨s, hs⟩ := hl v (by simp)
    have h := ih { w with views := w.views.modify v (relocate workspace) } (by
      intro u hu
      obtain ⟨t, ht⟩ := hl u (by simp [hu])
      by_cases huv : u = v
      · subst huv
        exact ⟨relocate workspace t, by simp [ht]⟩
      · exact ⟨t, by simp [huv, ht]⟩)
    simp [relocateMembers, hs, h]

/-- The lookups of the attachment, workspace and focus components agree. -/
structure Agree (w w' : CompositorWorld) : Prop where
  owner : w'.ownerOf = w.ownerOf
  workspace : w'.viewWorkspace = w.viewWorkspace
  focused : w'.isFocused = w.isFocused

theorem Agree.refl (w : CompositorWorld) : Agree w w := ⟨rfl, rfl, rfl⟩

theorem Agree.trans {w'' : CompositorWorld} (h : Agree w w') (h' : Agree w' w'') : Agree w w'' :=
  ⟨h'.owner.trans h.owner, h'.workspace.trans h.workspace, h'.focused.trans h.focused⟩

theorem Agree.inv (h : Agree w w') (hi : Inv w)
    (hstack : ∀ u v n, w'.stackingOrder u = some n → w'.stackingOrder v = some n → u = v)
    (hfresh : ∀ v n, w'.stackingOrder v = some n → n < w'.nextStackingOrder) : Inv w' where
  owned := by
    rw [h.owner, h.workspace]
    exact hi.owned
  forest := by
    rw [h.owner]
    exact hi.forest
  focus := by
    rw [h.focused, h.workspace]
    exact hi.focus
  stacking := hstack
  fresh := hfresh

theorem Inv.dropSnapshots (h : Inv w) (snapshots : Map WorkspaceId LayoutSnapshot) :
    Inv { w with layoutSnapshots := snapshots } :=
  ⟨h.owned, h.forest, h.focus, h.stacking, h.fresh⟩

def raised (w : CompositorWorld) (view : ViewId) : CompositorWorld :=
  { w with
    views := w.views.modify view (fun s => { s with stackingOrder := w.nextStackingOrder })
    nextStackingOrder := w.nextStackingOrder + 1 }

theorem raised_agree (w : CompositorWorld) (view : ViewId) : Agree w (raised w view) := by
  refine ⟨?_, ?_, ?_⟩ <;> funext v <;> by_cases h : v = view <;>
    cases hl : w.views.find v <;>
    simp_all [raised, ownerOf, viewPlacement, viewWorkspace, isFocused]

theorem raised_stackingOrder (w : CompositorWorld) (view v : ViewId) : (raised w view).stackingOrder v =
      if v = view then (w.views.find v).map (fun _ => w.nextStackingOrder) else w.stackingOrder v := by
  by_cases h : v = view <;> cases hl : w.views.find v <;> simp_all [raised, stackingOrder]

theorem raised_inv (h : Inv w) (view : ViewId) : Inv (raised w view) := by
  have hnew : ∀ v n, (raised w view).stackingOrder v = some n →
      (v = view ∧ n = w.nextStackingOrder) ∨ (v ≠ view ∧ w.stackingOrder v = some n) := by
    intro v n hv
    rw [raised_stackingOrder] at hv
    by_cases hvv : v = view
    · cases hl : w.views.find v <;> simp_all
    · exact .inr ⟨hvv, by simpa [hvv] using hv⟩
  refine (raised_agree w view).inv h ?_ ?_
  · intro u v n hu hv
    obtain ⟨hu, hn⟩ | ⟨_, hu⟩ := hnew u n hu <;> obtain ⟨hv, hm⟩ | ⟨_, hv⟩ := hnew v n hv
    · rw [hu, hv]
    · have := h.fresh v n hv
      omega
    · have := h.fresh u n hu
      omega
    · exact h.stacking u v n hu hv
  · intro v n hv
    change n < w.nextStackingOrder + 1
    obtain ⟨_, hn⟩ | ⟨_, hv⟩ := hnew v n hv
    · omega
    · have := h.fresh v n hv
      omega

theorem raised_live {v : ViewId} (h : ∃ s, w.views.find v = some s) : ∃ s, (raised w view).views.find v = some s := by
  obtain ⟨s, hs⟩ := h
  by_cases hv : v = view <;> simp_all [raised]

/-- Restacking live views succeeds unless the order counter is exhausted. -/
theorem restack_run (hi : Inv w) (hl : ∀ v ∈ l, ∃ s, w.views.find v = some s) :
    (∃ w', restack l w = .ok () w' ∧ Agree w w' ∧ Inv w') ∨ ∃ w', restack l w = .error .panic w' := by
  induction l generalizing w with
  | nil => exact .inl ⟨w, rfl, Agree.refl w, hi⟩
  | cons v l ih =>
    obtain ⟨s, hs⟩ := hl v (by simp)
    by_cases hn : w.nextStackingOrder + 1 < 2 ^ 64
    · have hstep : restack (v :: l) w = restack l (raised w v) := by
        simp [restack, hs, hn, raised, -Nat.reducePow]
      rw [hstep]
      obtain ⟨w', hw', ha, hinv⟩ | ⟨w', hw'⟩ := ih (raised_inv hi v)
        (fun u hu => raised_live (hl u (by simp [hu])))
      · exact .inl ⟨w', hw', (raised_agree w v).trans ha, hinv⟩
      · exact .inr ⟨w', hw'⟩
    · exact .inr ⟨w, by simp [restack, hs, hn, -Nat.reducePow]⟩

/-- In a world with the invariant a raise cannot find a broken attachment. -/
theorem raiseViewFamily_run (hi : Inv w) (hv : ∃ s, w.views.find view = some s) :
    (∃ w', raiseViewFamily view w = .ok () w' ∧ Agree w w' ∧ Inv w') ∨
      ∃ w', raiseViewFamily view w = .error .panic w' := by
  obtain ⟨root, hroot, hb⟩ := tiledAncestor_isSome hi hv
  have hrl := hi.above_live hv hb
  obtain ⟨family, hf, hmem⟩ := viewFamily_run hi hrl
  obtain ⟨subtree, hs, hsub⟩ := viewFamily_run hi hv
  have hlive : ∀ v ∈ family, ∃ s, w.views.find v = some s := fun v hm => below_live hrl ((hmem v).mp hm)
  by_cases hne : view = root
  · subst hne
    have hrun : raiseViewFamily view w = restack family w := by
      simp [raiseViewFamily, hroot, hf]
    rw [hrun]
    exact restack_run family hi hlive
  · have hrun : raiseViewFamily view w =
        restack (family.filter (fun v => !subtree.contains v) ++ subtree) w := by
      simp [raiseViewFamily, hroot, hf, hs, hne]
    rw [hrun]
    refine restack_run _ hi fun v hm => ?_
    grind [below_live]

end TensorDE.Wm
