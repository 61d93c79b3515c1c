import TensorDE.Lib.Trace
import TensorDE.Protocol.RegistryViews

set_option linter.dupNamespace false

namespace TensorDE.Protocol.SurfaceBufferRegistry

open TensorDE.Maps TensorDE.Trace List

variable {K C D : Type} [DecidableEq K]

inductive Call (K C D : Type) where
  | registerSurface (object : K)
  | registerViewRoot (root : K)
  | registerImportedBuffer (object : K) (id : SurfaceBufferId) (size : Size)
  | updateSurface (surface : K) (snapshot : SurfaceCommit K C D)
  | updateViewTree (root : K) (commits : List (K × SurfaceCommit K C D))
  | removeViewTree (root : K)
  | removeSurface (surface : K)
  | bufferDestroyed (object : K)

/-- The registry with what has become of the buffer ids so far. -/
structure Session (K C D : Type) where
  registry : SurfaceBufferRegistry K C D
  imported : List SurfaceBufferId
  destroyed : List SurfaceBufferId
  released : List SurfaceBufferId

def Session.start : Session K C D := ⟨.default, [], [], []⟩

variable (r : SurfaceBufferRegistry K C D)

def Call.imports : Call K C D → List SurfaceBufferId
  | .registerImportedBuffer object id _ => if (r.buffers.find object).isNone then [id] else []
  | _ => []

def Call.destroys : Call K C D → List SurfaceBufferId
  | .bufferDestroyed object => ((r.buffers.find object).map BufferState.id).toList
  | _ => []

section Perform

variable [DecidableEq C] [DecidableEq D] [Inhabited D]

/-- The ids a call hands back, and the registry after it. -/
def Call.perform (r : SurfaceBufferRegistry K C D) : Call K C D → List SurfaceBufferId × SurfaceBufferRegistry K C D
  | .registerSurface object => ([], ((r.registerSurface object).map Prod.snd).getD r)
  | .registerViewRoot root => ([], ((r.registerViewRoot root).map Prod.snd).getD r)
  | .registerImportedBuffer object id size => ([], (r.registerImportedBuffer object id size).2)
  | .updateSurface surface snapshot =>
    ((r.updateSurface surface snapshot).1.releasedBuffers, (r.updateSurface surface snapshot).2)
  | .updateViewTree root commits =>
    (((r.updateViewTree root commits).1.map SurfaceTreeUpdate.releasedBuffers).getD [], (r.updateViewTree root commits).2)
  | .removeViewTree root => ((r.removeViewTree root).1.releasedBuffers, (r.removeViewTree root).2)
  | .removeSurface surface => r.removeSurface surface
  | .bufferDestroyed object => r.bufferDestroyed object

def Session.perform (s : Session K C D) (c : Call K C D) : Session K C D where
  registry := (c.perform s.registry).2
  imported := s.imported ++ c.imports s.registry
  destroyed := s.destroyed ++ c.destroys s.registry
  released := s.released ++ (c.perform s.registry).1

variable (s : Session K C D)

def Call.Fresh : Call K C D → Prop
  | .registerImportedBuffer _ id _ => id ∉ s.imported
  | _ => True

def Step (c : Call K C D) (t : Session K C D) : Prop := c.Fresh s ∧ s.perform c = t

end Perform

/-- What the calls have made of the buffer ids. -/
structure Settled (s : Session K C D) : Prop where
  nodup : s.released.Nodup
  imported : ∀ id, id ∈ s.imported ↔ id ∈ s.released ∨ Live s.registry.buffers id
  known : ∀ id ∈ s.destroyed, id ∈ s.imported
  gone : ∀ id ∈ s.released, ¬ Live s.registry.buffers id ∧ id ∈ s.destroyed
  dead : ∀ object record, s.registry.buffers.find object = some record →
    (record.destroyed = true ↔ record.id ∈ s.destroyed)

theorem Settled.release {s : Session K C D} (h : Settled s) {r : SurfaceBufferRegistry K C D}
    {released : List SurfaceBufferId} (hr : Releases s.registry.buffers released r.buffers) :
    Settled { s with registry := r, released := s.released ++ released } where
  nodup := by
    rw [nodup_append]
    refine ⟨h.nodup, hr.nodup, fun id hid id' hid' heq => ?_⟩
    subst heq
    obtain ⟨-, object, record, hf, hi, -⟩ := hr.gone id hid'
    exact (h.gone id hid).1 ⟨object, record, hf, hi⟩
  imported := by
    grind +splitImp +splitIndPred [hr.live_of_live]
  known := h.known
  gone := by
    grind +splitImp +splitIndPred [hr.live_of_live]
  dead := by
    grind [hr.old, h.dead]

section Buffers

variable {r : SurfaceBufferRegistry K C D} {object : K}

theorem find_none_of_not_live {id : SurfaceBufferId} (h : ¬ Live r.buffers id) (o : K) (record : BufferState)
    (hr : r.buffers.find o = some record) : record.id ≠ id :=
  fun heq => h ⟨o, record, hr, heq⟩

theorem Sound.import (h : r.Sound) (hnone : r.buffers.find object = none) {id : SurfaceBufferId}
    (hid : ¬ Live r.buffers id) (size : Size) :
    ({ r with buffers := r.buffers.insert object ⟨id, size, 0, false⟩ } : SurfaceBufferRegistry K C D).Sound := by
  have hne : ∀ s a, holding r.surfaces s = some a → a.object ≠ object := by
    intro s a ha heq
    obtain ⟨record, hr, -⟩ := h.books.held s a ha
    rw [heq, hnone] at hr
    cases hr
  refine { h with books := ⟨?_, ?_, ?_, ?_⟩ }
  · intro o record hr
    rw [Map.find_insert] at hr
    split_ifs at hr with ho
    · cases hr
      symm
      rw [Finset.card_eq_zero, Finset.eq_empty_iff_forall_notMem]
      intro s hs
      obtain ⟨a, ha, hao⟩ := mem_holders.mp hs
      exact hne s a ha (hao.trans ho)
    · exact h.books.counted o record hr
  · grind [h.books.held, Map.find_insert]
  · grind [Map.find_insert, find_none_of_not_live, h.books.apart]
  grind -linarith [Map.find_insert, h.books.kept]

def marked (r : SurfaceBufferRegistry K C D) (object : K) : SurfaceBufferRegistry K C D :=
  { r with buffers := r.buffers.modify object fun record => { record with destroyed := true } }

theorem marked_of_find_none (hr : r.buffers.find object = none) : r.marked object = r := by
  have hsame := Map.modify_eq_self (m := r.buffers) (k := object)
    (f := fun record : BufferState => { record with destroyed := true }) (by simp [hr])
  rw [marked, hsame]

theorem find_marked {o : K} {record : BufferState} (hr : (r.marked object).buffers.find o = some record) :
    ∃ record', r.buffers.find o = some record' ∧ record'.id = record.id ∧ record'.attachments = record.attachments
      ∧ (record.destroyed ↔ o = object ∨ record'.destroyed) := by
  grind [marked, Map.find_modify, Option.map_eq_some_iff]

theorem find_marked_of_find (object : K) {o : K} {record : BufferState} (hr : r.buffers.find o = some record) :
    ∃ record', (r.marked object).buffers.find o = some record' ∧ record'.id = record.id := by
  grind [marked, Map.find_modify]

theorem live_marked {id : SurfaceBufferId} : Live (r.marked object).buffers id ↔ Live r.buffers id := by
  constructor
  · rintro ⟨o, record, hr, rfl⟩
    obtain ⟨record', hr', hid, -⟩ := find_marked hr
    exact ⟨o, record', hr', hid⟩
  · rintro ⟨o, record, hr, rfl⟩
    obtain ⟨record', hr', hid⟩ := find_marked_of_find object hr
    exact ⟨o, record', hr', hid⟩

/-- A buffer that is destroyed goes at once when no surface shows it. -/
theorem Sound.destroy (h : r.Sound) : ((r.marked object).collectDestroyed object).2.Sound
      ∧ Releases (r.marked object).buffers ((r.marked object).collectDestroyed object).1.toList
          ((r.marked object).collectDestroyed object).2.buffers := by
  have hcollect := collectDestroyed_counted (r.marked object) r.surfaces object
    (fun o record hr => by
      grind [find_marked, h.books.counted])
    (fun s a ha => by
      obtain ⟨record, hr, hid⟩ := h.books.held s a ha
      obtain ⟨record', hr', hid'⟩ := find_marked_of_find object hr
      exact ⟨record', hr', hid'.trans hid⟩)
    (fun o o' b b' hb hb' hid => by
      grind [find_marked, h.books.apart])
    (fun o record hne hr hd => by
      grind -linarith [find_marked, h.books.kept])
  refine ⟨?_, hcollect.2⟩
  rw [collectDestroyed_rest]
  exact { h with books := hcollect.1 }

end Buffers

section Agree

variable {r r' : SurfaceBufferRegistry K C D}

/-- A surface is a member of the view that is its recorded root, and of no other. -/
def Agree (r : SurfaceBufferRegistry K C D) : Prop :=
  ∀ view surface, r.Listed view surface ↔ r.surfaceRoots.find surface = some view

section

variable (h : r.Agree)
include h

theorem Agree.isSome {surface view : K} (hr : r.surfaceRoots.find surface = some view) :
    (r.viewMembers.find view).isSome := by
  obtain ⟨members, hm, -⟩ := (h view surface).mpr hr
  rw [hm]
  rfl

theorem Agree.of_eq (hv : r'.viewMembers = r.viewMembers) (hr : r'.surfaceRoots = r.surfaceRoots) : r'.Agree := by
  intro view surface
  rw [Listed, hv, hr]
  exact h view surface

theorem Agree.viewRoot {root : K} (hroot : (r.viewMembers.find root).isSome ↔ (r.surfaceRoots.find root).isSome)
    (hlisted : ∀ v s, r'.Listed v s ↔ if v = root ∧ r.viewMembers.find root = none then s = root else r.Listed v s)
    (hroots : ∀ s, r'.surfaceRoots.find s = if s = root then some ((r.surfaceRoots.find s).getD root)
      else r.surfaceRoots.find s) : r'.Agree := by
  intro view surface
  rw [hlisted, hroots, h view surface]
  cases hr : r.surfaceRoots.find root with
  | some w => grind
  | none =>
    have hview : r.viewMembers.find root = none := by
      rw [hr] at hroot
      simpa using hroot
    grind [h.isSome]

theorem Agree.removes {surfaces : List K} {released : List SurfaceBufferId}
    (hr : Removes r surfaces released r') : r'.Agree := by
  intro view surface
  rw [hr.listed, hr.roots, h view surface]
  split_ifs with hs <;> simp [hs]

theorem Agree.rebuilds {root : K} {members : List K} {released : List SurfaceBufferId}
    (hr : Rebuilds r root members released r')
    (hm : ∀ s ∈ members, r.surfaceRoots.find s = none ∨ r.surfaceRoots.find s = some root) : r'.Agree := by
  intro view surface
  rw [hr.listed, hr.roots]
  by_cases hs : surface ∈ members
  · rw [if_pos hs, Option.some.injEq]
    split_ifs with hv
    · exact ⟨fun _ => hv.symm, fun _ => hs⟩
    · rw [h view surface]
      grind
  · split_ifs with hv hret hret
    · simp [hs]
    · subst hv
      rw [← h view surface]
      refine ⟨fun hm => absurd hm hs, fun hl => absurd ?_ hret⟩
      exact mem_retired.mpr ⟨hl, hs⟩
    · simp [hret]
    · rw [h view surface]
      exact and_iff_left hret

theorem Agree.withoutTree {root : K} {released : List SurfaceBufferId}
    (hr : Removes (r.withoutView root) (r.treeMembers root) released r')
    (hroot : (r.viewMembers.find root).isSome ∨ r.surfaceRoots.find root = none) : r'.Agree := by
  intro view surface
  rw [hr.listed, hr.roots, listed_withoutView, h view surface]
  split_ifs with hs
  · simp [hs]
  · refine ⟨fun hl => hl.1.2, fun hv => ⟨⟨fun heq => ?_, hv⟩, hs⟩⟩
    subst heq
    have hsome := h.isSome hv
    exact hs (mem_treeMembers.mpr (by rw [if_pos hsome]; exact (h view surface).mpr hv))

end

end Agree

section Runs

variable [DecidableEq C] [DecidableEq D] [Inhabited D] {r : SurfaceBufferRegistry K C D} {s t : Session K C D}
  {c : Call K C D}

def Call.opening (r : SurfaceBufferRegistry K C D) : Call K C D → Map K BufferState
  | .registerImportedBuffer object id size => r.buffers.ensure object ⟨id, size, 0, false⟩
  | .bufferDestroyed object => (r.marked object).buffers
  | _ => r.buffers

theorem Sound.perform (h : r.Sound) (c : Call K C D)
    (hc : ∀ object id size, c = .registerImportedBuffer object id size → ¬ Live r.buffers id) :
    (c.perform r).2.Sound ∧ Releases (c.opening r) (c.perform r).1 (c.perform r).2.buffers := by
  cases c with
  | registerSurface object =>
    cases hreg : r.registerSurface object with
    | none =>
      simp only [Call.perform, hreg]
      exact ⟨h, Releases.refl _⟩
    | some p =>
      have hone := registerSurface_registers h hreg
      simp only [Call.perform, hreg]
      exact ⟨hone.sound, hone.buffers ▸ Releases.refl _⟩
  | registerViewRoot root =>
    obtain ⟨-, -, heq⟩ | ⟨id, r', heq, hsound, hbuffers, -⟩ := registerViewRoot_cases h root
    · simp only [Call.perform, heq]
      exact ⟨h, Releases.refl _⟩
    · simp only [Call.perform, heq]
      exact ⟨hsound, hbuffers ▸ Releases.refl _⟩
  | registerImportedBuffer object id size =>
    grind [Call.perform, registerImportedBuffer, Call.opening, Map.ensure, h.import, Releases.refl]
  | updateSurface surface snapshot =>
    have hone := updateSurface_updates h surface snapshot
    exact ⟨hone.sound, hone.releases⟩
  | updateViewTree root commits =>
    obtain ⟨hnone, hsame, -⟩ | ⟨update, hsome, hre⟩ := updateViewTree_cases h root commits
    · simp only [Call.perform, hnone]
      exact ⟨hsame.sound, hsame.buffers ▸ Releases.refl _⟩
    · simp only [Call.perform, hsome]
      exact ⟨hre.sound, hre.releases⟩
  | removeViewTree root =>
    have hrem := removeViewTree_removes h root
    exact ⟨hrem.sound, hrem.releases⟩
  | removeSurface surface =>
    have hrem := removeSurface_removes h surface
    exact ⟨hrem.sound, hrem.releases⟩
  | bufferDestroyed object =>
    cases hfind : r.buffers.find object with
    | none => grind [Call.perform, bufferDestroyed, Call.opening, marked_of_find_none, Releases.refl]
    | some record =>
      simp only [Call.perform, bufferDestroyed, hfind]
      exact ⟨h.destroy.1, h.destroy.2⟩

omit [DecidableEq C] [DecidableEq D] [Inhabited D] in
theorem Settled.import (h : Settled s) {object : K} {id : SurfaceBufferId} {size : Size}
    (hfind : s.registry.buffers.find object = none) (hid : id ∉ s.imported) :
    Settled { s with
      registry := { s.registry with buffers := s.registry.buffers.insert object ⟨id, size, 0, false⟩ }
      imported := s.imported ++ [id] } where
  nodup := h.nodup
  imported := by
    have hlive : ∀ i, Live (s.registry.buffers.insert object ⟨id, size, 0, false⟩) i
        ↔ Live s.registry.buffers i ∨ i = id := by
      intro i
      constructor
      · rintro ⟨o, record, hr, rfl⟩
        rw [Map.find_insert] at hr
        split_ifs at hr with ho
        · cases hr
          exact .inr rfl
        · exact .inl ⟨o, record, hr, rfl⟩
      · rintro (⟨o, record, hr, rfl⟩ | rfl)
        · refine ⟨o, record, ?_, rfl⟩
          grind [Map.find_insert]
        · exact ⟨object, _, by rw [Map.find_insert, if_pos rfl], rfl⟩
    grind [h.imported]
  known := fun i hi => mem_append_left _ (h.known i hi)
  gone := by
    intro i hi
    refine ⟨?_, (h.gone i hi).2⟩
    rintro ⟨o, record, hr, rfl⟩
    rw [Map.find_insert] at hr
    split_ifs at hr with ho
    · grind [h.imported]
    · exact (h.gone record.id hi).1 ⟨o, record, hr, rfl⟩
  dead := by
    grind [Map.find_insert, h.known, h.dead]

omit [DecidableEq C] [DecidableEq D] [Inhabited D] in
theorem Settled.mark (h : Settled s) (hs : s.registry.Sound) {object : K} {record : BufferState}
    (hfind : s.registry.buffers.find object = some record) :
    Settled { s with registry := s.registry.marked object, destroyed := s.destroyed ++ [record.id] } where
  nodup := h.nodup
  imported := fun id => by rw [live_marked, h.imported]
  known := by
    intro id hid
    obtain hid | hid := mem_append.mp hid
    · exact h.known id hid
    · rw [mem_singleton] at hid
      exact (h.imported id).mpr (.inr ⟨object, record, hfind, hid.symm⟩)
  gone := by
    grind [live_marked, h.gone]
  dead := by
    grind [find_marked, h.dead, hs.books.apart]

omit [DecidableEq C] [DecidableEq D] [Inhabited D] in
theorem Settled.opening (h : Settled s) (hs : s.registry.Sound) (hc : c.Fresh s) :
    Settled { s with
      registry := { s.registry with buffers := c.opening s.registry }
      imported := s.imported ++ c.imports s.registry
      destroyed := s.destroyed ++ c.destroys s.registry } := by
  cases c with
  | registerImportedBuffer object id size =>
    simp only [Call.opening, Call.imports, Call.destroys, append_nil, Map.ensure]
    cases hfind : s.registry.buffers.find object with
    | some record => simpa using h
    | none => simpa using h.import hfind hc
  | bufferDestroyed object =>
    simp only [Call.opening, Call.imports, Call.destroys, append_nil]
    cases hfind : s.registry.buffers.find object with
    | some record => exact h.mark hs hfind
    | none =>
      rw [marked_of_find_none hfind]
      simpa using h
  | registerSurface | registerViewRoot | updateSurface | updateViewTree | removeViewTree | removeSurface =>
    simpa [Call.opening, Call.imports, Call.destroys] using h

theorem Step.settled (h : Step s c t) (hs : s.registry.Sound ∧ Settled s) : t.registry.Sound ∧ Settled t := by
  obtain ⟨hfresh, rfl⟩ := h
  have hperform := hs.1.perform c fun object id size hc hlive => by
    subst hc
    exact hfresh ((hs.2.imported id).mpr (.inr hlive))
  exact ⟨hperform.1, (hs.2.opening hs.1 hfresh).release hperform.2⟩

omit [DecidableEq C] [DecidableEq D] [Inhabited D] in
theorem sound_start : (SurfaceBufferRegistry.default : SurfaceBufferRegistry K C D).Sound := by
  have hlisted : ∀ v s, ¬ (SurfaceBufferRegistry.default : SurfaceBufferRegistry K C D).Listed v s := by
    intro v s hl
    simpa [SurfaceBufferRegistry.default] using listed_iff.mp hl
  refine ⟨⟨?_, ?_, ?_, ?_⟩, ?_, ?_, Nat.le_refl 1, Nat.one_lt_two_pow (by decide), fun v s hl => absurd hl (hlisted v s), ?_⟩ <;>
    simp [SurfaceBufferRegistry.default, holding]

omit [DecidableEq C] [DecidableEq D] [Inhabited D] in
theorem settled_start : Settled (Session.start : Session K C D) := by
  refine ⟨nodup_nil, ?_, ?_, ?_, ?_⟩ <;> simp [Session.start, SurfaceBufferRegistry.default, Live]

omit [DecidableEq C] [DecidableEq D] [Inhabited D] in
theorem agree_start : (SurfaceBufferRegistry.default : SurfaceBufferRegistry K C D).Agree := by
  intro view surface
  rw [listed_iff]
  simp [SurfaceBufferRegistry.default]

structure Balanced (s : Session K C D) : Prop where
  attachments : ∀ object record, s.registry.buffers.find object = some record →
    record.attachments = (holders s.registry.surfaces object).card
  once : s.released.Nodup
  released : ∀ id, id ∈ s.released ↔ id ∈ s.imported ∧ id ∈ s.destroyed
    ∧ ∀ surface a, holding s.registry.surfaces surface = some a → a.id ≠ id

omit [DecidableEq C] [DecidableEq D] [Inhabited D] in
theorem Settled.balanced (h : Settled s) (hs : s.registry.Sound) : Balanced s where
  attachments := hs.books.counted
  once := h.nodup
  released := by
    intro id
    constructor
    · intro hid
      refine ⟨(h.imported id).mpr (.inl hid), (h.gone id hid).2, fun surface a ha heq => ?_⟩
      obtain ⟨record, hr, hrid⟩ := hs.books.held surface a ha
      exact (h.gone id hid).1 ⟨a.object, record, hr, hrid.trans heq⟩
    · rintro ⟨himp, hdes, hfree⟩
      obtain hrel | ⟨object, record, hr, rfl⟩ := (h.imported id).mp himp
      · exact hrel
      -- a destroyed buffer that is still there is shown by some surface
      · exfalso
        have hkept := hs.books.kept object record hr ((h.dead object record hr).mpr hdes)
        rw [hs.books.counted object record hr, Ne, Finset.card_eq_zero, ← Ne,
          ← Finset.nonempty_iff_ne_empty] at hkept
        obtain ⟨surface, hsurface⟩ := hkept
        obtain ⟨a, ha, rfl⟩ := mem_holders.mp hsurface
        grind [hs.books.held]

def SameKeys (r r' : SurfaceBufferRegistry K C D) : Prop :=
  (∀ k, (r'.surfaces.find k).isSome = (r.surfaces.find k).isSome)
    ∧ (∀ k, (r'.viewMembers.find k).isSome = (r.viewMembers.find k).isSome)
    ∧ ∀ k, (r'.buffers.find k).isSome = (r.buffers.find k).isSome

/-- The calls that name each surface under the view it already belongs to: a tree update takes over
no surface of another view, a view and the recorded root of its root surface come together, and only
a view that is there is removed, or a surface of none. A call that runs out of ids is free. -/
def Call.Orderly (r : SurfaceBufferRegistry K C D) : Call K C D → Prop
  | .registerViewRoot root => r.Registered root ∨ 0 < r.idsLeft →
    ((r.viewMembers.find root).isSome ↔ (r.surfaceRoots.find root).isSome)
  | .updateViewTree root commits =>
    (r.newcomers ((firstCommits [] commits).map Prod.fst)).length ≤ r.idsLeft →
      ∀ c ∈ commits, r.surfaceRoots.find c.1 = none ∨ r.surfaceRoots.find c.1 = some root
  | .removeViewTree root => (r.viewMembers.find root).isSome ∨ r.surfaceRoots.find root = none
  | _ => True

def OrderlyStep (s : Session K C D) (c : Call K C D) (t : Session K C D) : Prop :=
  c.Orderly s.registry ∧ Step s c t

theorem Sound.agree_perform (h : r.Sound) (ha : r.Agree) (hc : c.Orderly r) : (c.perform r).2.Agree := by
  cases c with
  | registerSurface object =>
    cases hreg : r.registerSurface object with
    | none =>
      simp only [Call.perform, hreg]
      exact ha
    | some p =>
      have hone := registerSurface_registers h hreg
      simp only [Call.perform, hreg]
      exact ha.of_eq hone.viewMembers hone.surfaceRoots
  | registerViewRoot root =>
    obtain ⟨-, -, heq⟩ | ⟨id, r', heq, -, -, hroom, -, hlisted, hroots⟩ := registerViewRoot_cases h root
    · simp only [Call.perform, heq]
      exact ha
    · simp only [Call.perform, heq]
      exact ha.viewRoot (hc hroom) hlisted hroots
  | registerImportedBuffer object id size => grind [Call.perform, registerImportedBuffer, ha.of_eq]
  | updateSurface surface snapshot =>
    have hone := updateSurface_updates h surface snapshot
    exact ha.of_eq hone.viewMembers hone.surfaceRoots
  | updateViewTree root commits =>
    obtain ⟨-, hsame, -⟩ | ⟨update, -, hre⟩ := updateViewTree_cases h root commits
    · intro view surface
      exact (hsame.listed view surface).trans ((ha view surface).trans (by rw [← hsame.roots]; rfl))
    · refine ha.rebuilds hre fun s hs => ?_
      obtain ⟨hs, -⟩ := mem_firstCommits.mp hs
      obtain ⟨p, hp, rfl⟩ := mem_map.mp hs
      exact hc hre.enough p hp
  | removeViewTree root => exact ha.withoutTree (removeViewTree_removes h root) hc
  | removeSurface surface => exact ha.removes (removeSurface_removes h surface)
  | bufferDestroyed object => grind [Call.perform, bufferDestroyed, collectDestroyed_rest, ha.of_eq]

def Call.view : Call K C D → Option K
  | .updateViewTree root _ => some root
  | .removeViewTree root => some root
  | _ => none

theorem Sound.spares (h : r.Sound) (ha : r.Agree) (hc : c.Orderly r) {root view surface : K} (hroot : c.view = some root)
    (hview : r.surfaceRoots.find surface = some view) (hne : view ≠ root) : (c.perform r).2.Registered surface := by
  have hreg := h.rooted surface view hview
  have hnot : ¬ r.Listed root surface := by
    rw [ha root surface, hview, Option.some.injEq]
    exact hne
  cases c with
  | updateViewTree root' commits =>
    cases hroot
    obtain ⟨-, hsame, -⟩ | ⟨update, -, hre⟩ := updateViewTree_cases h root commits
    · exact (hsame.registered surface).mpr hreg
    · exact (hre.registered surface).mpr ⟨.inl hreg, fun hm => hnot (mem_retired.mp hm).1⟩
  | removeViewTree root' =>
    cases hroot
    refine ((removeViewTree_removes h root).registered surface).mpr ⟨hreg, fun hm => ?_⟩
    grind -linarith [mem_treeMembers, hc.resolve_left]
  | registerSurface | registerViewRoot | registerImportedBuffer | updateSurface | removeSurface | bufferDestroyed =>
    cases hroot

theorem run_settled {calls : List (Call K C D)} (h : Run Step .start calls s) : s.registry.Sound ∧ Settled s :=
  h.invariant (P := fun s => s.registry.Sound ∧ Settled s) (Q := fun _ => True)
    (fun s c t hs _ hstep => Step.settled hstep hs) ⟨sound_start, settled_start⟩ fun _ _ => trivial

theorem run_agree {calls : List (Call K C D)} (h : Run OrderlyStep .start calls s) :
    (s.registry.Sound ∧ Settled s) ∧ s.registry.Agree := by
  refine h.invariant (P := fun s => (s.registry.Sound ∧ Settled s) ∧ s.registry.Agree) (Q := fun _ => True) ?_
    ⟨⟨sound_start, settled_start⟩, agree_start⟩ fun _ _ => trivial
  intro s c t hs _ hstep
  refine ⟨hstep.2.settled hs.1, ?_⟩
  obtain ⟨horderly, -, rfl⟩ := hstep
  exact hs.1.1.agree_perform hs.2 horderly

/-- After any calls the counts and the releases are right, and a tree update that gives up has
changed nothing. After orderly calls the views are disjoint, and no call about one view takes a
surface of another. -/
theorem registry_invariant : (∀ (calls : List (Call K C D)) (s : Session K C D), Run Step .start calls s → Balanced s ∧
      ∀ root commits, (s.registry.updateViewTree root commits).1 = none →
        SameKeys s.registry (s.registry.updateViewTree root commits).2)
    ∧ ∀ (calls : List (Call K C D)) (s : Session K C D), Run OrderlyStep .start calls s → s.registry.Agree ∧
      ∀ c t, OrderlyStep s c t → ∀ root surface view, c.view = some root →
        s.registry.surfaceRoots.find surface = some view → view ≠ root → t.registry.Registered surface := by
  constructor
  · intro calls s h
    obtain ⟨hsound, hsettled⟩ := run_settled h
    refine ⟨hsettled.balanced hsound, fun root commits hnone => ?_⟩
    obtain ⟨-, hsame, -⟩ | ⟨update, hsome, -⟩ := updateViewTree_cases hsound root commits
    · exact ⟨fun k => Bool.eq_iff_iff.mpr (hsame.registered k), hsame.views, fun k => by rw [hsame.buffers]⟩
    · rw [hnone] at hsome
      cases hsome
  · intro calls s h
    obtain ⟨⟨hsound, -⟩, hagree⟩ := run_agree h
    refine ⟨hagree, fun c t hstep root surface view hroot hview hne => ?_⟩
    obtain ⟨horderly, -, rfl⟩ := hstep
    exact hsound.spares hagree horderly hroot hview hne

end Runs

section Examples

instance (r : SurfaceBufferRegistry K C D) (surface : K) : Decidable (r.Registered surface) :=
  inferInstanceAs (Decidable (_ = true))

def smallCommit (buffer : Option Nat) : SurfaceCommit Nat Nat Unit := ⟨buffer, none, (0, 0), 1, 1, ()⟩

def oneView : List (Call Nat Nat Unit) :=
  [.registerViewRoot 1, .registerImportedBuffer 10 7 ⟨80, 60⟩,
    .updateViewTree 1 [(1, smallCommit (some 10)), (3, smallCommit none)], .bufferDestroyed 10, .removeViewTree 1]

theorem registry_invariant_oneView : Balanced (oneView.foldl Session.perform Session.start)
      ∧ (oneView.foldl Session.perform Session.start).registry.Agree
      ∧ (oneView.foldl Session.perform Session.start).released = [7] := by
  refine ⟨(registry_invariant.1 oneView _ ?_).1, (registry_invariant.2 oneView _ ?_).1, by decide⟩
  · exact .cons ⟨trivial, rfl⟩ (.cons ⟨not_mem_nil, rfl⟩ (.cons ⟨trivial, rfl⟩ (.cons ⟨trivial, rfl⟩
      (.cons ⟨trivial, rfl⟩ (.nil _)))))
  · exact .cons ⟨fun _ => by decide, trivial, rfl⟩ (.cons ⟨trivial, not_mem_nil, rfl⟩
      (.cons ⟨fun _ => by decide, trivial, rfl⟩ (.cons ⟨trivial, trivial, rfl⟩
        (.cons ⟨Or.inl (by decide), trivial, rfl⟩ (.nil _)))))

/-- Two views, the second of which takes over the child of the first. -/
def takeOver : List (Call Nat Nat Unit) :=
  [.registerViewRoot 1, .registerViewRoot 2, .updateViewTree 1 [(1, smallCommit none), (3, smallCommit none)],
    .updateViewTree 2 [(2, smallCommit none), (3, smallCommit none)]]

theorem taken_over_surface_dies_with_its_old_view : ∃ s, Run Step .start takeOver s
      ∧ s.registry.viewMembers.find 1 = some [1, 3] ∧ s.registry.viewMembers.find 2 = some [2, 3]
      ∧ s.registry.surfaceRoots.find 3 = some 2 ∧ s.registry.Registered 3
      ∧ ¬ (s.perform (.updateViewTree 1 [(1, smallCommit none)])).registry.Registered 3 :=
  ⟨takeOver.foldl Session.perform Session.start,
    .cons ⟨trivial, rfl⟩ (.cons ⟨trivial, rfl⟩ (.cons ⟨trivial, rfl⟩ (.cons ⟨trivial, rfl⟩ (.nil _)))),
    by decide⟩

end Examples

end TensorDE.Protocol.SurfaceBufferRegistry
