import TensorDE.Wm.SurfaceGather

set_option linter.dupNamespace false

namespace TensorDE.Wm.Compositor

section Trees

variable {tree tree' : Surface → Node} {s p child : Surface}

theorem Planted.of_same (h : Planted tree) (hparent : ∀ q, (tree' q).parent = (tree q).parent)
    (hchildren : ∀ q x, x ∈ (tree' q).children → x ∈ (tree q).children)
    (halive : ∀ q, (tree q).alive = true → (tree' q).alive = true) : Planted tree' where
  forest := Forest.wellFounded_of_sub h.forest fun v u hv => (hparent v).symm.trans hv
  children q x hx hne := by
    grind -linarith [h.children]
  living q x hx := halive x (h.living q x (hchildren q x hx))

theorem Planted.cut (h : Planted tree) (lost : Surface → Prop)
    (hparent : ∀ q, (tree' q).parent = (tree q).parent ∨ (tree' q).parent = none ∧ lost q)
    (hchildren : ∀ q x, x ∈ (tree' q).children → x ∈ (tree q).children ∧ (x = q ∨ ¬ lost x))
    (halive : ∀ q x, x ∈ (tree' q).children → (tree' x).alive = (tree x).alive) : Planted tree' where
  forest := by
    grind [Forest.wellFounded_of_sub, h.forest]
  children q x hx hne := by
    grind [h.children]
  living q x hx := by
    grind [h.living]

/-- `child` gets a parent that is not below it. -/
theorem Planted.graft (h : Planted tree) (hchild : (tree child).alive = true) (hroot : (tree child).parent = none)
    (hbelow : ¬ Forest.Below (fun q => (tree q).parent) child p)
    (hparent : ∀ q, (tree' q).parent = if q = child then some p else (tree q).parent)
    (hchildren : ∀ q x, x ∈ (tree' q).children → x ∈ (tree q).children ∨ q = p ∧ x = child)
    (halive : ∀ q, (tree' q).alive = (tree q).alive) : Planted tree' where
  forest := by
    have hupdate : (fun q => (tree' q).parent) = Function.update (fun q => (tree q).parent) child (some p) := by
      funext q
      rw [hparent]
      by_cases hq : q = child
      · simp [hq]
      · simp [hq]
    rw [hupdate]
    exact Forest.wellFounded_update h.forest hbelow
  children q x hx hne := by
    grind [h.children]
  living q x hx := by
    grind [h.living]

end Trees

namespace Client

variable {T : Type} {c c' : Client T} {s p child : Surface} (change : PrivateSurfaceData T → PrivateSurfaceData T)

theorem tree_edit_self : (c.edit s change).tree s = ⟨(change (c.surfaces s)).alive, (change (c.surfaces s)).parent,
      (change (c.surfaces s)).children, (change (c.surfaces s)).sync⟩ := by
  rw [tree, edit_self]

theorem tree_edit_of_ne (h : p ≠ s) : (c.edit s change).tree p = c.tree p := by
  rw [tree, edit_of_ne change h]
  rfl

theorem planted_edit {change : PrivateSurfaceData T → PrivateSurfaceData T} (h : Planted c.tree)
    (halive : (change (c.surfaces s)).alive = (c.surfaces s).alive)
    (hparent : (change (c.surfaces s)).parent = (c.surfaces s).parent)
    (hchildren : ∀ x ∈ (change (c.surfaces s)).children, x ∈ (c.surfaces s).children) :
    Planted (c.edit s change).tree := by
  refine h.of_same (fun q => ?_) (fun q x hx => ?_) (fun q hq => ?_)
  · by_cases hq : q = s
    · subst hq
      rw [tree_edit_self]
      exact hparent
    · rw [tree_edit_of_ne change hq]
  · by_cases hqs : q = s
    · subst hqs
      rw [tree_edit_self] at hx
      exact hchildren x hx
    · rwa [tree_edit_of_ne change hqs] at hx
  · by_cases hqs : q = s
    · subst hqs
      rw [tree_edit_self]
      exact halive.trans hq
    · rwa [tree_edit_of_ne change hqs]

/-- A walk to the root that does not meet a surface shows that it is not above. -/
theorem not_below_of_isAncestorLoop {rounds : Nat} {q : Surface} (h : c.isAncestorLoop s rounds q = false) {w : Surface}
    (hw : (c.tree q).parent = some w) : ¬ Forest.Below (fun q => (c.tree q).parent) s w := by
  induction rounds generalizing q w with
  | zero => cases h
  | succ rounds ih =>
    have hparent : (c.surfaces q).parent = some w := hw
    rw [isAncestorLoop, hparent] at h
    dsimp only at h
    split at h
    · cases h
    · intro hbelow
      grind -linarith [hbelow.cases]

theorem not_below_of_isAncestor (hne : s ≠ p) (h : c.isAncestor s p = false) :
    ¬ Forest.Below (fun q => (c.tree q).parent) s p := by
  intro hbelow
  obtain rfl | ⟨w, hw, hbelow⟩ := hbelow.cases
  · exact hne rfl
  · exact not_below_of_isAncestorLoop h hw hbelow

theorem planted_getSubsurface (h : Planted c.tree) (hs : c.alive s = true) : Planted (c.getSubsurface s p).tree := by
  rw [getSubsurface]
  split
  · exact h
  rename_i hcycle
  split
  · exact h
  split
  · exact h
  rename_i hroot
  obtain ⟨hne, hancestor⟩ := not_or.mp hcycle
  have hnone : (c.tree s).parent = none := by simpa [tree] using hroot
  have hbelow := not_below_of_isAncestor hne (by simpa using hancestor)
  have halive : (c.tree s).alive = true := hs
  refine h.graft halive hnone hbelow (fun q => ?_) (fun q x hx => ?_) (fun q => ?_)
  · by_cases hqp : q = p
    · subst hqp
      rw [tree_edit_self, edit_of_ne _ (Ne.symm hne), if_neg (Ne.symm hne)]
      rfl
    grind [tree_edit_of_ne, tree_edit_self]
  · by_cases hqp : q = p
    · subst hqp
      rw [tree_edit_self, edit_of_ne _ (Ne.symm hne)] at hx
      obtain hold | hnew := List.mem_append.mp hx
      · exact .inl hold
      grind
    · rw [tree_edit_of_ne _ hqp] at hx
      by_cases hqs : q = s
      · subst hqs
        rw [tree_edit_self] at hx
        exact .inl hx
      grind [tree_edit_of_ne]
  · by_cases hqp : q = p
    · subst hqp
      rw [tree_edit_self, edit_of_ne _ (Ne.symm hne)]
      rfl
    · rw [tree_edit_of_ne _ hqp]
      by_cases hqs : q = s
      · subst hqs
        rw [tree_edit_self]
        rfl
      · rw [tree_edit_of_ne _ hqs]

/-- What `unset_parent` leaves: `s` has no parent, and is in no list of children but its own. -/
theorem unsetParent_spec (h : Planted c.tree) (s : Surface) : ((c.unsetParent s).tree s).parent = none ∧
    (∀ q, q ≠ s → ((c.unsetParent s).tree q).parent = (c.tree q).parent) ∧
    (∀ q x, x ∈ ((c.unsetParent s).tree q).children → x ∈ (c.tree q).children ∧ (x = q ∨ x ≠ s)) ∧
    ∀ q, ((c.unsetParent s).tree q).alive = (c.tree q).alive := by
  grind +splitImp +splitIndPred [unsetParent, tree_edit_self, tree_edit_of_ne, tree]

theorem planted_unsetParent (h : Planted c.tree) (s : Surface) : Planted (c.unsetParent s).tree := by
  obtain ⟨hnone, hparent, hchildren, halive⟩ := unsetParent_spec h s
  refine h.cut (fun x => x = s) (fun q => ?_) hchildren fun _ x _ => halive x
  grind

theorem orphan_spec (s : Surface) (children : List Surface) (c : Client T) (q : Surface) :
    ((orphan s children c).tree q).parent = (if q ∈ children ∧ q ≠ s then none else (c.tree q).parent) ∧
    ((orphan s children c).tree q).children = (c.tree q).children ∧
    ((orphan s children c).tree q).alive = (c.tree q).alive := by
  induction children generalizing c with
  | nil => simp [orphan]
  | cons child rest ih =>
    rw [orphan]
    obtain ⟨hparent, hchildren, halive⟩ := ih (if child = s then c else c.edit child fun data => { data with parent := none })
    rw [hparent, hchildren, halive]
    by_cases hcs : child = s
    · grind
    · rw [if_neg hcs]
      by_cases hq : q = child
      · subst hq
        rw [tree_edit_self]
        exact ⟨by simp [hcs], rfl, rfl⟩
      grind [tree_edit_of_ne]

theorem planted_cleanup (h : Planted c.tree) (s : Surface) : Planted (c.cleanup s).tree := by
  obtain ⟨hnone, hparent, hchildren, halive⟩ := unsetParent_spec h s
  have hfinal : ∀ q, ((c.cleanup s).tree q).parent = (if q ∈ (c.tree s).children ∧ q ≠ s then none
        else ((c.unsetParent s).tree q).parent) ∧
      ((c.cleanup s).tree q).children = (if q = s then [] else ((c.unsetParent s).tree q).children) ∧
      (q ≠ s → ((c.cleanup s).tree q).alive = (c.tree q).alive) := by
    intro q
    obtain ⟨hp, hch, hal⟩ := orphan_spec s (c.surfaces s).children (c.unsetParent s) q
    rw [cleanup]
    by_cases hq : q = s
    · subst hq
      rw [tree_edit_self]
      exact ⟨hp, by rw [if_pos rfl], fun hne => absurd rfl hne⟩
    · rw [tree_edit_of_ne _ hq, hp, hch, hal, if_neg hq]
      exact ⟨rfl, rfl, fun _ => halive q⟩
  refine h.cut (fun x => x = s ∨ x ∈ (c.tree s).children ∧ x ≠ s) (fun q => ?_) (fun q x hx => ?_)
    fun q x hx => ?_
  · grind
  · grind +splitImp +splitIndPred
  grind

theorem mem_moveChild {location : Location} {relative : Surface} {children moved : List Surface}
    (h : moveChild s location relative children = .ok moved) (hs : s ∈ children) {x : Surface} (hx : x ∈ moved) :
    x ∈ children := by
  grind [moveChild, List.eq_or_mem_of_mem_insertIdx, List.eraseIdx_sublist]

end Client

end TensorDE.Wm.Compositor
