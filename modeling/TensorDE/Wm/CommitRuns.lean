import TensorDE.Wm.SurfacePlanted
import TensorDE.Wm.CommitOrder

set_option linter.dupNamespace false

namespace TensorDE.Wm.Compositor

open Trace Effect List

/-- What happens to the surfaces of a client: its requests, the end of its objects, barriers that
are signaled, and the rounds of the loops that apply transactions. -/
inductive Act (T : Type) where
  | createSurface
  | setRole (surface : Surface) (role : String)
  | editPending (surface : Surface) (change : T → T)
  | addBlocker (surface : Surface) (barrier : Barrier)
  | signal (barrier : Barrier)
  | blockerCleared
  | applyNext
  | getSubsurface (surface parent : Surface)
  | setSync (surface : Surface) (sync : Bool)
  | subsurfaceDestroyed (surface : Surface)
  | reorder (surface : Surface) (location : Location) (relative : Surface)
  | commit (surface : Surface)
  | destroySurface (surface : Surface)

namespace Client

variable {T : Type} [Cacheable T] {c c' : Client T} {s p : Surface}

def perform : Act T → Client T → Except Fault (Client T)
  | .createSurface, c => .ok c.createSurface
  | .setRole surface role, c => .ok (c.setRole surface role)
  | .editPending surface change, c => .ok (c.editPending surface change)
  | .addBlocker surface barrier, c => .ok (c.addBlocker surface barrier)
  | .signal barrier, c => .ok (c.signal barrier)
  | .blockerCleared, c => .ok c.takeReady
  | .applyNext, c => .ok c.applyNext
  | .getSubsurface surface parent, c => .ok (c.getSubsurface surface parent)
  | .setSync surface sync, c => .ok (c.setSync surface sync)
  | .subsurfaceDestroyed surface, c => .ok (c.subsurfaceDestroyed surface)
  | .reorder surface location relative, c => c.reorder surface location relative
  | .commit surface, c => c.commit surface
  | .destroySurface surface, c => .ok (c.cleanup surface)

/-- Requests are about living surfaces and wait until the loops under way are done; the hooks these
loops call signal barriers and edit pending state. -/
def Enabled (c : Client T) : Act T → Prop
  | .createSurface => c.work = []
  | .setRole surface _ => c.alive surface = true
  | .editPending surface _ => surface < c.count
  | .addBlocker surface _ => c.alive surface = true
  | .signal _ => True
  | .blockerCleared => True
  | .applyNext => c.work ≠ []
  | .getSubsurface surface parent => c.work = [] ∧ c.alive surface = true ∧ c.alive parent = true
  | .setSync surface _ => (c.surfaces surface).sync.isSome = true
  | .subsurfaceDestroyed surface => c.work = [] ∧ (c.surfaces surface).sync.isSome = true
  | .reorder surface _ _ => c.work = [] ∧ surface < c.count
  | .commit surface => c.work = [] ∧ c.alive surface = true
  | .destroySurface surface => c.work = [] ∧ c.alive surface = true

def Step (c : Client T) (a : Act T) (c' : Client T) : Prop := c.Enabled a ∧ perform a c = .ok c'

def OrderlyStep (c : Client T) (a : Act T) (c' : Client T) : Prop :=
  c.Step a c' ∧ ∀ surface, a = .commit surface → c.effectivelySync surface = true ∨ c.Orderly surface

section Preservation

omit [Cacheable T] in
theorem lt_of_ne_blank (hs : (c.surfaces s).sync.isSome = true)
    (hblank : ∀ s, c.count ≤ s → (c.surfaces s).sync = none) : s < c.count := by
  grind

theorem Owned.lt_of_sync (h : Owned c) (hs : (c.surfaces s).sync.isSome = true) : s < c.count :=
  lt_of_ne_blank hs fun s hle => by rw [h.blank s hle]

section CreateSurface

omit [Cacheable T] in
theorem ne_or_lt {q count : Nat} (hq : q < count + 1) : q = count ∨ q < count :=
  (Nat.lt_or_eq_of_le (Nat.le_of_lt_succ hq)).symm

theorem createSurface_of_ne {q : Surface} (hq : q ≠ c.count) : c.createSurface.surfaces q = c.surfaces q :=
  Function.update_of_ne hq ..

theorem createSurface_self : c.createSurface.surfaces c.count =
    { alive := true, children := [c.count], cachedState := .initial, pendingTransaction := c.heap.allocated } :=
  Function.update_self ..

section

variable (h : Owned c)
include h

theorem sole_createSurface {q : Surface} (hq : q < c.count + 1) :
    c.createSurface.heap.Sole (c.createSurface.surfaces q).pendingTransaction
      (if q = c.count then {} else c.pending q) := by
  obtain rfl | hlt := ne_or_lt hq
  · rw [createSurface_self, if_pos rfl]
    exact ⟨Nat.lt_succ_self _, Function.update_self ..⟩
  · have hne : q ≠ c.count := Nat.ne_of_lt hlt
    obtain ⟨hcell, hdata⟩ := h.sole q hlt
    rw [createSurface_of_ne hne, if_neg hne]
    exact ⟨Nat.lt_succ_of_lt hcell, (Function.update_of_ne (Nat.ne_of_lt hcell) ..).trans hdata⟩

theorem Owned.createSurface : Owned c.createSurface where
  sole q hq := by
    rw [pending, (sole_createSurface h hq).state]
    exact sole_createSurface h hq
  apart q hq r hr heq := by
    obtain rfl | hq := ne_or_lt hq
    · obtain rfl | hr := ne_or_lt hr
      · rfl
      · rw [createSurface_self, createSurface_of_ne (Nat.ne_of_lt hr)] at heq
        exact absurd heq.symm (Nat.ne_of_lt (h.sole r hr).1)
    · rw [createSurface_of_ne (Nat.ne_of_lt hq)] at heq
      obtain rfl | hr := ne_or_lt hr
      · rw [createSurface_self] at heq
        exact absurd heq (Nat.ne_of_lt (h.sole q hq).1)
      grind [createSurface_of_ne, h.apart]
  known q hq := by
    by_cases hqc : q = c.count
    · exact hqc ▸ Nat.lt_succ_self _
    · rw [alive, createSurface_of_ne hqc] at hq
      exact Nat.lt_succ_of_lt (h.known q hq)
  blank q hq := by
    have hqc : q ≠ c.count := fun heq => Nat.lt_irrefl _ (heq ▸ hq)
    exact (createSurface_of_ne hqc).trans (h.blank q (Nat.le_of_succ_le hq))

theorem field_createSurface {α : Type} (field : PrivateSurfaceData T → α)
    (hfield : field (c.createSurface.surfaces c.count) = field { cachedState := .initial }) (q : Surface) :
    field (c.createSurface.surfaces q) = field (c.surfaces q) := by
  grind [h.blank, createSurface_of_ne]

theorem ledger_createSurface : c.createSurface.ledger = c.ledger.birth c.count := by
  apply Ledger.ext
  · funext q
    by_cases hq : q = c.count
    · subst hq
      have hbirth : (c.ledger.birth c.count).alive c.count = true := Function.update_self ..
      rw [hbirth]
      exact congrArg PrivateSurfaceData.alive createSurface_self
    · have hbirth : (c.ledger.birth c.count).alive q = c.alive q := Function.update_of_ne hq ..
      rw [hbirth]
      exact congrArg PrivateSurfaceData.alive (createSurface_of_ne hq)
  · rfl
  · funext q
    exact field_createSurface h (fun data => data.cachedState.shelf) (by rw [createSurface_self]) q
  · funext q
    exact field_createSurface h PrivateSurfaceData.currentCommit (by rw [createSurface_self]) q
  · funext q
    exact field_createSurface h PrivateSurfaceData.issued (by rw [createSurface_self]) q
  · funext q
    by_cases hq : q < c.count + 1
    · refine (if_pos hq).trans ((sole_createSurface h hq).state.trans ?_)
      obtain rfl | hlt := ne_or_lt hq
      · rw [if_pos rfl]
        exact (if_neg (Nat.lt_irrefl _)).symm
      · rw [if_neg (Nat.ne_of_lt hlt)]
        exact (if_pos hlt).symm
    · exact (if_neg hq).trans (if_neg fun hlt => hq (Nat.lt_succ_of_lt hlt)).symm
  · rfl
  · rfl
  · rfl
  · rfl

theorem planted_createSurface (hplanted : Planted c.tree) : Planted c.createSurface.tree := by
  have htree : ∀ q, q ≠ c.count → c.createSurface.tree q = c.tree q := by
    intro q hq
    rw [tree, createSurface_of_ne hq]
    rfl
  have hroot : c.createSurface.tree c.count = ⟨true, none, [c.count], none⟩ := by
    rw [tree, createSurface_self]
  refine ⟨?_, fun q x hx hne => ?_, fun q x hx => ?_⟩
  · grind [Forest.wellFounded_of_sub, hplanted.forest]
  · by_cases hq : q = c.count
    · grind
    · rw [htree q hq] at hx
      have hlt := h.known x (hplanted.living q x hx)
      grind [hplanted.children]
  grind [hplanted.living]

end

theorem Keeps.createSurface (h : Keeps c) : Keeps c.createSurface where
  owned := h.owned.createSurface
  planted := planted_createSurface h.owned h.planted
  sound := by
    have hblank := h.owned.blank c.count (Nat.le_refl _)
    rw [ledger_createSurface h.owned]
    grind [h.sound.birth, ledger]
  parents q p hp := by
    have hparent : (c.tree q).parent = some p :=
      (field_createSurface h.owned PrivateSurfaceData.parent (by rw [createSurface_self]) q).symm.trans hp
    exact Nat.lt_succ_of_lt (h.parents q p hparent)

end CreateSurface

section Replant

/-- The surfaces change their places in the tree, and nothing the ledger is about. -/
structure Replant (c c' : Client T) : Prop where
  fields : ∀ s, Quiet (c.surfaces s) (c'.surfaces s)
  beyond : ∀ s, c.count ≤ s → c'.surfaces s = c.surfaces s
  count : c'.count = c.count
  heap : c'.heap = c.heap
  signaled : c'.signaled = c.signaled
  queue : c'.queue = c.queue
  work : c'.work = c.work
  retired : c'.retired = c.retired
  cancelled : c'.cancelled = c.cancelled

omit [Cacheable T] in
theorem Replant.refl (c : Client T) : Replant c c :=
  ⟨fun _ => ⟨rfl, rfl, rfl, rfl, rfl⟩, fun _ _ => rfl, rfl, rfl, rfl, rfl, rfl, rfl, rfl⟩

omit [Cacheable T] in
theorem Replant.edit (h : Replant c c') {change : PrivateSurfaceData T → PrivateSurfaceData T} (hs : s < c.count)
    (hquiet : Quiet (c'.surfaces s) (change (c'.surfaces s))) : Replant c (c'.edit s change) := by
  refine { h with fields := fun q => ?_, beyond := fun q hq => ?_ }
  · by_cases hq : q = s
    · subst hq
      have hold := h.fields q
      rw [edit_self]
      exact ⟨hquiet.alive.trans hold.alive, hquiet.shelf.trans hold.shelf,
        hquiet.pendingTransaction.trans hold.pendingTransaction, hquiet.currentCommit.trans hold.currentCommit,
        hquiet.issued.trans hold.issued⟩
    · rw [edit_of_ne change hq]
      exact h.fields q
  grind [edit_of_ne, h.beyond]

omit [Cacheable T] in
theorem Replant.pending (h : Replant c c') (s : Surface) : c'.pending s = c.pending s := by
  rw [Client.pending, (h.fields s).pendingTransaction, h.heap, Client.pending]

omit [Cacheable T] in
theorem Replant.ledger (h : Replant c c') : c'.ledger = c.ledger := by
  apply Ledger.ext
  · funext q
    exact (h.fields q).alive
  · exact h.signaled
  · funext q
    exact (h.fields q).shelf
  · funext q
    exact (h.fields q).currentCommit
  · funext q
    exact (h.fields q).issued
  · funext q
    simp only [Client.ledger, h.count, h.pending]
  · exact h.queue
  · exact h.work
  · exact h.retired
  · exact h.cancelled

theorem Replant.owned (h : Replant c c') (hc : Owned c) : Owned c' where
  sole q hq := by
    rw [h.pending, (h.fields q).pendingTransaction, h.heap]
    exact hc.sole q (h.count ▸ hq)
  apart q hq r hr heq := by
    grind +splitImp +splitIndPred
  known q hq := by
    rw [h.count]
    exact hc.known q ((h.fields q).alive.symm.trans hq)
  blank q hq := by
    grind [h.count, h.beyond, hc.blank]

theorem Replant.keeps (h : Replant c c') (hc : Keeps c) (hplanted : Planted c'.tree)
    (hparents : ∀ s p, (c'.tree s).parent = some p → p < c.count) : Keeps c' where
  owned := h.owned hc.owned
  planted := hplanted
  sound := h.ledger.symm ▸ hc.sound
  parents q p hp := by
    rw [h.count]
    exact hparents q p hp

omit [Cacheable T] in
theorem replant_unsetParent (hs : s < c.count) (hparents : ∀ s p, (c.tree s).parent = some p → p < c.count) :
    Replant c (c.unsetParent s) := by
  rw [unsetParent]
  cases hparent : (c.surfaces s).parent with
  | none => exact .refl c
  | some p =>
    have hfirst : Replant c (c.edit s fun data => { data with parent := none }) :=
      (Replant.refl c).edit hs ⟨rfl, rfl, rfl, rfl, rfl⟩
    exact hfirst.edit (hparents s p hparent) ⟨rfl, rfl, rfl, rfl, rfl⟩

theorem Keeps.unsetParent (h : Keeps c) (hs : s < c.count) : Keeps (c.unsetParent s) := by
  obtain ⟨hnone, hparent, -, -⟩ := unsetParent_spec h.planted s
  refine (replant_unsetParent hs h.parents).keeps h (planted_unsetParent h.planted s) fun q p hp => ?_
  grind +splitImp +splitIndPred

theorem Keeps.setSync (h : Keeps c) (hs : s < c.count) (sync : Bool) : Keeps (c.setSync s sync) := by
  have hreplant : Replant c (c.setSync s sync) := (Replant.refl c).edit hs ⟨rfl, rfl, rfl, rfl, rfl⟩
  refine hreplant.keeps h (planted_edit h.planted rfl rfl fun _ hx => hx) fun q p hp => ?_
  refine h.parents q p ?_
  rw [← hp]
  exact (field_edit PrivateSurfaceData.parent rfl q).symm

omit [Cacheable T] in
theorem replant_orphan {children : List Surface} (hchildren : ∀ x ∈ children, x < c.count) (h : Replant c c') :
    Replant c (orphan s children c') := by
  induction children generalizing c' with
  | nil => exact h
  | cons child rest ih =>
    rw [orphan]
    refine ih (fun x hx => hchildren x (mem_cons_of_mem _ hx)) ?_
    split
    · exact h
    · exact h.edit (hchildren child mem_cons_self) ⟨rfl, rfl, rfl, rfl, rfl⟩

omit [Cacheable T] in
/-- A surface whose object is gone has died for the ledger. -/
theorem ledger_destroyed :
    (c.edit s fun data => { data with alive := false, children := [] }).ledger = c.ledger.death s := by
  apply Ledger.ext
  · funext q
    by_cases hq : q = s
    · subst hq
      have hdeath : (c.ledger.death q).alive q = false := Function.update_self ..
      rw [hdeath]
      exact congrArg PrivateSurfaceData.alive (edit_self _)
    · have hdeath : (c.ledger.death s).alive q = c.alive q := Function.update_of_ne hq ..
      rw [hdeath]
      exact congrArg PrivateSurfaceData.alive (edit_of_ne _ hq)
  · rfl
  · funext q
    exact field_edit (fun data => data.cachedState.shelf) rfl q
  · funext q
    exact field_edit PrivateSurfaceData.currentCommit rfl q
  · funext q
    exact field_edit PrivateSurfaceData.issued rfl q
  · funext q
    simp only [Ledger.death, Client.ledger]
    rw [pending_edit rfl]
    rfl
  · rfl
  · rfl
  · rfl
  · rfl

theorem Keeps.cleanup (h : Keeps c) (hs : s < c.count) : Keeps (c.cleanup s) := by
  have hchildren : ∀ x ∈ (c.surfaces s).children, x < c.count :=
    fun x hx => h.owned.known x (h.planted.living s x hx)
  have hreplant : Replant c (orphan s (c.surfaces s).children (c.unsetParent s)) :=
    replant_orphan hchildren (replant_unsetParent hs h.parents)
  refine ⟨(hreplant.owned h.owned).edit (hreplant.count.symm ▸ hs) rfl, planted_cleanup h.planted s, ?_, fun q p hp => ?_⟩
  · rw [Client.cleanup, ledger_destroyed, hreplant.ledger]
    exact h.sound.death s
  · obtain ⟨hnone, hparent, -, -⟩ := unsetParent_spec h.planted s
    have horphan : ((c.cleanup s).tree q).parent =
        (if q ∈ (c.surfaces s).children ∧ q ≠ s then none else ((c.unsetParent s).tree q).parent) :=
      (field_edit PrivateSurfaceData.parent rfl q).trans (orphan_spec s _ _ q).1
    have hcount : (c.cleanup s).count = c.count := hreplant.count
    grind +splitImp +splitIndPred

omit [Cacheable T] in
theorem replant_getSubsurface (hs : s < c.count) (hp : p < c.count) : Replant c (c.getSubsurface s p) := by
  rw [getSubsurface]
  split
  · exact .refl c
  split
  · exact .refl c
  split
  · exact .refl c
  have hfirst : Replant c (c.edit s fun data =>
      { data with role := some SUBSURFACE_ROLE, parent := some p, sync := some (data.sync.getD true) }) :=
    (Replant.refl c).edit hs ⟨rfl, rfl, rfl, rfl, rfl⟩
  exact hfirst.edit hp ⟨rfl, rfl, rfl, rfl, rfl⟩

omit [Cacheable T] in
theorem parent_getSubsurface {q : Surface} : (((c.getSubsurface s p).tree q).parent = (c.tree q).parent) ∨
    ((c.getSubsurface s p).tree q).parent = some p := by
  rw [getSubsurface]
  split
  · exact .inl rfl
  split
  · exact .inl rfl
  split
  · exact .inl rfl
  have hlast : ((((c.edit s fun data =>
      { data with role := some SUBSURFACE_ROLE, parent := some p, sync := some (data.sync.getD true) }).edit p
        fun data => { data with children := data.children ++ [s] }).tree q).parent) =
      ((c.edit s fun data =>
        { data with role := some SUBSURFACE_ROLE, parent := some p, sync := some (data.sync.getD true) }).tree q).parent :=
    field_edit PrivateSurfaceData.parent rfl q
  grind [tree_edit_self, tree_edit_of_ne]

theorem Keeps.getSubsurface (h : Keeps c) (hs : c.alive s = true) (hp : c.alive p = true) :
    Keeps (c.getSubsurface s p) := by
  have hlt := h.owned.known p hp
  refine (replant_getSubsurface (h.owned.known s hs) hlt).keeps h (planted_getSubsurface h.planted hs) fun q r hr => ?_
  grind +splitImp +splitIndPred [parent_getSubsurface]

theorem Keeps.edit {change : PrivateSurfaceData T → PrivateSurfaceData T} (h : Keeps c) (hs : s < c.count)
    (hquiet : Quiet (c.surfaces s) (change (c.surfaces s)))
    (hparent : (change (c.surfaces s)).parent = (c.surfaces s).parent)
    (hchildren : ∀ x ∈ (change (c.surfaces s)).children, x ∈ (c.surfaces s).children) : Keeps (c.edit s change) := by
  have hreplant : Replant c (c.edit s change) := (Replant.refl c).edit hs hquiet
  refine hreplant.keeps h (planted_edit h.planted hquiet.alive hparent hchildren) fun q p hp => ?_
  exact h.parents q p ((field_edit PrivateSurfaceData.parent hparent q).symm.trans hp)

theorem Keeps.reorder (h : Keeps c) {location : Location} {relative : Surface}
    (hrun : c.reorder s location relative = .ok c') : Keeps c' := by
  rw [Client.reorder] at hrun
  cases hparent : (c.surfaces s).parent with
  | none => grind
  | some p =>
    rw [hparent] at hrun
    dsimp only at hrun
    split at hrun
    · rename_i hmem
      obtain ⟨moved, hmoved, hrun⟩ := except_bind_eq_ok.mp hrun
      obtain rfl := Except.ok.inj hrun
      exact h.edit (h.parents s p hparent) ⟨rfl, rfl, rfl, rfl, rfl⟩ rfl fun x hx => mem_moveChild hmoved hmem.1 hx
    · exact Except.ok.inj hrun ▸ h

end Replant

theorem Keeps.of_tree (h : Keeps c) (howned : Owned c') (htree : c'.tree = c.tree) (hcount : c'.count = c.count)
    (hsound : Ledger.Sound c'.ledger) : Keeps c' where
  owned := howned
  planted := htree ▸ h.planted
  sound := hsound
  parents q p hp := by
    rw [htree] at hp
    rw [hcount]
    exact h.parents q p hp

theorem Keeps.addBlocker (h : Keeps c) (hs : c.alive s = true) (barrier : Barrier) : Keeps (c.addBlocker s barrier) := by
  have hlt := h.owned.known s hs
  refine h.of_tree (h.owned.withState _ hlt) rfl rfl ?_
  rw [Client.addBlocker, ledger_withState _ h.owned hlt]
  exact h.sound.block hs barrier

theorem Keeps.signal (h : Keeps c) (barrier : Barrier) : Keeps (c.signal barrier) :=
  h.of_tree ⟨h.owned.sole, h.owned.apart, h.owned.known, h.owned.blank⟩ rfl rfl (h.sound.signal barrier)

theorem Keeps.takeReady (h : Keeps c) : Keeps c.takeReady :=
  h.of_tree h.owned.takeReady rfl rfl h.sound.sweep

theorem ledger_applyCommit (k : Nat) : (c.applyCommit s k).ledger =
    { c.ledger with shelf := Function.update c.ledger.shelf s ((c.ledger.shelf s).apply k) } := by
  rw [applyCommit, ledger_edit rfl rfl]
  apply Ledger.ext <;> try rfl
  · exact congrArg (Function.update c.ledger.shelf s) (CachedState.shelf_apply _ _)
  · exact Function.update_eq_self s _
  · exact Function.update_eq_self s _

theorem applyNext_alive {k : Nat} {rest : List (Surface × Nat)} (hwork : c.work = (s, k) :: rest)
    (hs : c.alive s = true) : c.applyNext = { c.applyCommit s k with work := rest } := by
  rw [applyNext, hwork]
  exact if_pos hs

theorem applyNext_dead {k : Nat} {rest : List (Surface × Nat)} (hwork : c.work = (s, k) :: rest)
    (hs : c.alive s = false) : c.applyNext = { c with work := rest } := by
  grind [applyNext]

theorem ledger_applyNext {k : Nat} {rest : List (Surface × Nat)} (hwork : c.work = (s, k) :: rest)
    (hs : c.alive s = true) : c.applyNext.ledger = c.ledger.applyTo s k := by
  have hrest : ({ c.applyCommit s k with work := rest } : Client T).ledger =
      { (c.applyCommit s k).ledger with work := rest } := rfl
  rw [applyNext_alive hwork hs, hrest, ledger_applyCommit]
  apply Ledger.ext <;> try rfl
  exact (congrArg List.tail hwork).symm

theorem Keeps.applyNext (h : Keeps c) : Keeps c.applyNext := by
  cases hwork : c.work with
  | nil =>
    rw [Client.applyNext, hwork]
    exact h
  | cons entry rest =>
    obtain ⟨s, k⟩ := entry
    cases hs : c.alive s with
    | true =>
      have hedit : Owned (c.applyCommit s k) := h.owned.edit (h.owned.known s hs) rfl
      have htree : (c.applyCommit s k).tree = c.tree := tree_edit (by simp)
      refine h.of_tree ?_ ?_ ?_ ?_
      · rw [applyNext_alive hwork hs]
        exact ⟨hedit.sole, hedit.apart, hedit.known, hedit.blank⟩
      · rw [applyNext_alive hwork hs]
        exact htree
      · rw [applyNext_alive hwork hs]
        rfl
      · rw [ledger_applyNext hwork hs]
        refine h.sound.applyTo ?_ hs
        rw [Client.ledger, hwork]
        exact mem_cons_self
    | false =>
      have hskip : ({ c with work := rest } : Client T).ledger = c.ledger.skip := by
        apply Ledger.ext <;> try rfl
        exact (congrArg List.tail hwork).symm
      rw [applyNext_dead hwork hs]
      refine h.of_tree ⟨h.owned.sole, h.owned.apart, h.owned.known, h.owned.blank⟩ rfl rfl ?_
      rw [hskip]
      exact h.sound.skip

theorem sound_initial : Ledger.Sound (Client.initial : Client T).ledger where
  shelf _ := ⟨fun _ he => (not_mem_nil he).elim, rfl⟩
  pendingBound _ _ _ hmem := (not_mem_nil hmem).elim
  queueBound _ hX := (not_mem_nil hX).elim
  pendingIssued _ _ _ hmem := (not_mem_nil hmem).elim
  queueIssued _ hX := (not_mem_nil hX).elim
  cancelledIssued _ hX := (not_mem_nil hX).elim
  workBound _ _ hmem := (not_mem_nil hmem).elim
  pendingNamed _ _ _ hmem := (not_mem_nil hmem).elim
  queueNamed _ hX := (not_mem_nil hX).elim
  order := .nil
  queueFree _ hX := (not_mem_nil hX).elim
  workFree _ _ _ hmem := (not_mem_nil hmem).elim
  workFirst _ _ _ hmem := (not_mem_nil hmem).elim
  cancelledDone _ hX := (not_mem_nil hX).elim
  retiredReleased _ hX := (not_mem_nil hX).elim
  mergedFree _ _ hm := (not_mem_nil hm).elim
  mergedQueue _ _ hm := (not_mem_nil hm).elim
  mergedCancelled _ _ hm := (not_mem_nil hm).elim

theorem keeps_initial : Keeps (Client.initial : Client T) where
  owned := by
    refine ⟨fun s hs => absurd hs (Nat.not_lt_zero s), fun s hs => absurd hs (Nat.not_lt_zero s), ?_, fun s _ => rfl⟩
    intro s hs
    cases hs
  planted := by
    refine ⟨⟨fun s => ⟨s, fun p hp => ?_⟩⟩, ?_, ?_⟩
    · cases hp
    · intro p child hmem
      cases hmem
    · intro p child hmem
      cases hmem
  sound := sound_initial
  parents s p hp := by cases hp

theorem Keeps.step (h : Keeps c) {a : Act T} (hstep : c.OrderlyStep a c') : Keeps c' := by
  obtain ⟨⟨henabled, hrun⟩, horderly⟩ := hstep
  cases a with
  | createSurface => exact Except.ok.inj hrun ▸ h.createSurface
  | setRole s role =>
    obtain rfl := Except.ok.inj hrun
    rw [Client.setRole]
    split
    · exact h
    · exact h.edit (h.owned.known s henabled) ⟨rfl, rfl, rfl, rfl, rfl⟩ rfl fun _ hx => hx
  | editPending s change =>
    obtain rfl := Except.ok.inj hrun
    exact h.edit henabled ⟨rfl, rfl, rfl, rfl, rfl⟩ rfl fun _ hx => hx
  | addBlocker s barrier => exact Except.ok.inj hrun ▸ h.addBlocker henabled barrier
  | signal barrier => exact Except.ok.inj hrun ▸ h.signal barrier
  | blockerCleared => exact Except.ok.inj hrun ▸ h.takeReady
  | applyNext => exact Except.ok.inj hrun ▸ h.applyNext
  | getSubsurface s p => exact Except.ok.inj hrun ▸ h.getSubsurface henabled.2.1 henabled.2.2
  | setSync s sync => exact Except.ok.inj hrun ▸ h.setSync (h.owned.lt_of_sync henabled) sync
  | subsurfaceDestroyed s =>
    have hlt := h.owned.lt_of_sync henabled.2
    have hunset := h.unsetParent hlt
    have hcount : (c.unsetParent s).count = c.count := (replant_unsetParent hlt h.parents).count
    exact Except.ok.inj hrun ▸ hunset.setSync (hcount.symm ▸ hlt) true
  | reorder s location relative => exact h.reorder hrun
  | commit s =>
    obtain ⟨c₁, hcommit, howned, htree, hcount, hsteps⟩ := h.commit henabled.2
    obtain rfl := Except.ok.inj (hcommit.symm.trans hrun)
    grind -linarith [h.of_tree, sound_of_steps, h.sound]
  | destroySurface s => exact Except.ok.inj hrun ▸ h.cleanup (h.owned.known s henabled.2)

end Preservation

def Known (c : Client T) (X : Transaction) : Prop :=
  (∃ p < c.count, X = c.pending p) ∨ X ∈ c.queue ∨ X ∈ c.retired ∨ X ∈ c.cancelled

/-- No commit of a surface is merged before the barriers of its own transaction and of the
transactions of all earlier commits of the surface are signaled; the commits of a surface, in order
and each once, are those merged followed by those cached; and no commit finds its transaction
aliased. -/
structure InOrder (c : Client T) : Prop where
  never_early : ∀ s n m, n ∈ (c.surfaces s).cachedState.merged → m ≤ n → ∀ X, c.Known X → (s, m) ∈ X.commits →
    ∀ barrier ∈ X.blockers, c.signaled barrier = true
  each_once : ∀ s, (c.surfaces s).cachedState.merged ++ (c.surfaces s).cachedState.cache.flatMap (·.commits) =
    List.range (c.surfaces s).issued
  returns : ∀ s, c.alive s = true → ∃ c', c.commit s = .ok c'

omit [Cacheable T] in
theorem known_ledger {X : Transaction} (h : c.Known X) : c.ledger.Known X := by
  obtain ⟨p, hp, rfl⟩ | h := h
  · exact .inl ⟨p, (ledger_pending hp).symm⟩
  · exact .inr h

theorem Keeps.inOrder (h : Keeps c) : InOrder c where
  never_early s n m hn hle X hX hmem := h.sound.never_early hn hle (known_ledger hX) hmem
  each_once s := by
    have hfifo := (h.sound.shelf s).fifo
    simpa [ledger, CachedState.shelf, flatMap_map] using hfifo
  returns s hs := by
    grind -linarith [h.commit]

end Client

structure SubsurfaceCachedState where
  x : Int
  y : Int
deriving DecidableEq

instance : Cacheable SubsurfaceCachedState where
  initial := ⟨0, 0⟩
  commit pending := (pending, pending)
  mergeInto update _ := update

namespace Client

end Client

end TensorDE.Wm.Compositor
