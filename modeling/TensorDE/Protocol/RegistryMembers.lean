import TensorDE.Protocol.RegistryBooks

set_option linter.dupNamespace false

namespace TensorDE.Protocol.SurfaceBufferRegistry

open TensorDE.Maps TensorDE.Effect List

variable {K C D : Type} [DecidableEq K] (r : SurfaceBufferRegistry K C D)

def Registered (surface : K) : Prop := (r.surfaces.find surface).isSome

def Listed (view surface : K) : Prop :=
  ∃ members, r.viewMembers.find view = some members ∧ surface ∈ members

theorem listed_iff {r : SurfaceBufferRegistry K C D} {view surface : K} :
    r.Listed view surface ↔ surface ∈ (r.viewMembers.find view).getD [] := by
  rw [Listed]
  cases r.viewMembers.find view <;> simp

/-- The books of the registry, whatever it has been asked for. -/
structure Sound (r : SurfaceBufferRegistry K C D) : Prop where
  books : Counted r.surfaces r.buffers
  named : ∀ s t x y, r.surfaces.find s = some x → r.surfaces.find t = some y → x.id = y.id → s = t
  spent : ∀ s x, r.surfaces.find s = some x → 1 ≤ x.id ∧ x.id < r.nextSurfaceId
  first : 1 ≤ r.nextSurfaceId
  room : r.nextSurfaceId < 2 ^ 64
  listed : ∀ v s, r.Listed v s → r.Registered s
  rooted : ∀ s v, r.surfaceRoots.find s = some v → r.Registered s

/-- The surfaces are fewer than the ids, so no attachment count saturates. -/
theorem card_holders_lt {surfaces : Map K (SurfaceState K C D)} {next : Nat}
    (named : ∀ s t x y, surfaces.find s = some x → surfaces.find t = some y → x.id = y.id → s = t)
    (spent : ∀ s x, surfaces.find s = some x → 1 ≤ x.id ∧ x.id < next) (room : next < 2 ^ 64) (object : K) :
    (holders surfaces object).card < 2 ^ 64 := by
  have hle : surfaces.keySet.card ≤ (Finset.Ico 1 next).card := by
    refine Finset.card_le_card_of_injOn (fun s => ((surfaces.find s).map SurfaceState.id).getD 0) ?_ ?_
    · intro s hs
      obtain ⟨x, hx⟩ := Map.mem_keySet.mp hs
      simpa [hx] using spent s x hx
    · intro s hs t ht heq
      obtain ⟨x, hx⟩ := Map.mem_keySet.mp hs
      obtain ⟨y, hy⟩ := Map.mem_keySet.mp ht
      grind
  grind [holders, Nat.card_Ico]

section Register

variable [Inhabited D] {r r' : SurfaceBufferRegistry K C D} {object : K} {id : SurfaceId}

theorem registerSurface_cases (r : SurfaceBufferRegistry K C D) (object : K) :
    (∃ state, r.surfaces.find object = some state ∧ r.registerSurface object = some (state.id, r))
    ∨ (r.surfaces.find object = none ∧ r.nextSurfaceId + 1 < 2 ^ 64
      ∧ r.registerSurface object = some (r.nextSurfaceId, { r with
          nextSurfaceId := r.nextSurfaceId + 1
          surfaces := r.surfaces.insert object (SurfaceState.fresh r.nextSurfaceId) }))
    ∨ (r.surfaces.find object = none ∧ ¬ r.nextSurfaceId + 1 < 2 ^ 64 ∧ r.registerSurface object = none) := by
  grind [registerSurface, allocateSurfaceId, checkedAdd]

/-- What a registration changes: one more surface, which shows nothing and belongs to no view. -/
structure Registers (r : SurfaceBufferRegistry K C D) (object : K) (r' : SurfaceBufferRegistry K C D) : Prop where
  sound : r'.Sound
  buffers : r'.buffers = r.buffers
  viewMembers : r'.viewMembers = r.viewMembers
  surfaceRoots : r'.surfaceRoots = r.surfaceRoots
  holding : ∀ s, holding r'.surfaces s = holding r.surfaces s
  registered : ∀ s, r'.Registered s ↔ r.Registered s ∨ s = object

theorem registerSurface_registers (h : r.Sound) (hr : r.registerSurface object = some (id, r')) :
    Registers r object r' := by
  obtain ⟨state, hs, heq⟩ | ⟨hs, hroom, heq⟩ | ⟨-, -, heq⟩ := r.registerSurface_cases object
  · rw [heq, Option.some.injEq, Prod.mk.injEq] at hr
    obtain ⟨-, rfl⟩ := hr
    refine ⟨h, rfl, rfl, rfl, fun s => rfl, fun s => ⟨.inl, ?_⟩⟩
    grind [Registered]
  · rw [heq, Option.some.injEq, Prod.mk.injEq] at hr
    obtain ⟨-, rfl⟩ := hr
    have hholding : ∀ s, Protocol.holding (r.surfaces.insert object (SurfaceState.fresh r.nextSurfaceId)) s
        = Protocol.holding r.surfaces s := by
      intro s
      rw [Protocol.holding, Protocol.holding, Map.find_insert]
      split_ifs with hso
      · rw [hso, hs]
        rfl
      · rfl
    have hreg : ∀ s, (((r.surfaces.insert object (SurfaceState.fresh r.nextSurfaceId)).find s).isSome : Prop)
        ↔ r.Registered s ∨ s = object := by
      intro s
      rw [Map.find_insert, Registered]
      split_ifs with hso <;> simp [hso]
    refine ⟨⟨?_, ?_, ?_, Nat.le_add_left 1 _, hroom, ?_, ?_⟩, rfl, rfl, rfl, hholding, hreg⟩
    · exact h.books.same fun s => by rw [hholding]
    · intro s t x y hx hy hid
      simp only [Map.find_insert] at hx hy
      split_ifs at hx hy with hso hto hto
      · rw [hso, hto]
      · cases hx
        have hlt := (h.spent t y hy).2
        rw [← hid] at hlt
        exact absurd hlt (Nat.lt_irrefl _)
      · cases hy
        have hlt := (h.spent s x hx).2
        rw [hid] at hlt
        exact absurd hlt (Nat.lt_irrefl _)
      · exact h.named s t x y hx hy hid
    · intro s x hx
      simp only [Map.find_insert] at hx
      split_ifs at hx with hso
      · cases hx
        exact ⟨h.first, Nat.lt_succ_self _⟩
      · exact ⟨(h.spent s x hx).1, Nat.lt_succ_of_lt (h.spent s x hx).2⟩
    · intro v s hl
      exact (hreg s).mpr (.inl (h.listed v s hl))
    · intro s v hv
      exact (hreg s).mpr (.inl (h.rooted s v hv))
  · rw [heq] at hr
    cases hr

end Register

section Remove

variable {r : SurfaceBufferRegistry K C D} {surface : K}

/-- What a removal changes: the surface is gone, from the lists of the views too. -/
structure Removes (r : SurfaceBufferRegistry K C D) (surfaces : List K) (released : List SurfaceBufferId)
    (r' : SurfaceBufferRegistry K C D) : Prop where
  sound : r'.Sound
  releases : Releases r.buffers released r'.buffers
  registered : ∀ s, r'.Registered s ↔ r.Registered s ∧ s ∉ surfaces
  listed : ∀ v s, r'.Listed v s ↔ r.Listed v s ∧ s ∉ surfaces
  roots : ∀ s, r'.surfaceRoots.find s = if s ∈ surfaces then none else r.surfaceRoots.find s
  views : ∀ v, (r'.viewMembers.find v).isSome = (r.viewMembers.find v).isSome
  buffers : (∀ s ∈ surfaces, holding r.surfaces s = none) → r'.buffers = r.buffers

def without (r : SurfaceBufferRegistry K C D) (surface : K) : SurfaceBufferRegistry K C D :=
  { r with
    surfaces := r.surfaces.erase surface
    surfaceRoots := r.surfaceRoots.erase surface
    viewMembers := r.viewMembers.mapValues fun _ members => members.filter (· ≠ surface) }

theorem holding_erase (surfaces : Map K (SurfaceState K C D)) (surface s : K) :
    holding (surfaces.erase surface) s = if s = surface then none else holding surfaces s := by
  grind [holding, Map.find_erase]

theorem removeSurface_cases (r : SurfaceBufferRegistry K C D) (surface : K) :
    (r.surfaces.find surface = none ∧ r.removeSurface surface = ([], r))
    ∨ (∃ state a, r.surfaces.find surface = some state ∧ state.current = some a
      ∧ r.removeSurface surface = (r.without surface).detachBuffer a.object)
    ∨ (∃ state, r.surfaces.find surface = some state ∧ state.current = none
      ∧ r.removeSurface surface = ([], r.without surface)) := by
  grind [removeSurface, without]

theorem listed_without (r : SurfaceBufferRegistry K C D) (surface v s : K) :
    (r.without surface).Listed v s ↔ r.Listed v s ∧ s ≠ surface := by
  rw [listed_iff, listed_iff, without, Map.find_mapValues]
  cases r.viewMembers.find v <;> simp

theorem registered_without (r : SurfaceBufferRegistry K C D) (surface s : K) :
    (r.without surface).Registered s ↔ r.Registered s ∧ s ≠ surface := by
  grind [Registered, without, Map.find_erase]

theorem removes_without (h : r.Sound) {released : List SurfaceBufferId} {buffers : Map K BufferState}
    (hbooks : Counted (r.surfaces.erase surface) buffers) (hrel : Releases r.buffers released buffers)
    (hkeep : holding r.surfaces surface = none → buffers = r.buffers) :
    Removes r [surface] released { r.without surface with buffers := buffers } where
  sound :=
    { books := hbooks
      named := by
        grind [without, Map.find_erase, h.named]
      spent := by
        grind +splitImp +splitIndPred [without, Map.find_erase]
      first := h.first
      room := h.room
      listed := by
        intro v s hl
        obtain ⟨hl, hne⟩ := (r.listed_without surface v s).mp hl
        exact (r.registered_without surface s).mpr ⟨h.listed v s hl, hne⟩
      rooted := by
        intro s v hv
        simp only [without, Map.find_erase] at hv
        split_ifs at hv with hne
        exact (r.registered_without surface s).mpr ⟨h.rooted s v hv, hne⟩ }
  releases := hrel
  registered := by
    intro s
    rw [mem_singleton]
    exact r.registered_without surface s
  listed := by
    intro v s
    rw [mem_singleton]
    exact r.listed_without surface v s
  roots := by
    intro s
    simp only [mem_singleton]
    exact Map.find_erase r.surfaceRoots surface s
  views := by
    simp [without]
  buffers := fun hs => hkeep (hs surface (mem_singleton_self surface))

theorem removeSurface_removes (h : r.Sound) (surface : K) :
    Removes r [surface] (r.removeSurface surface).1 (r.removeSurface surface).2 := by
  obtain ⟨hs, heq⟩ | ⟨state, a, hs, hc, heq⟩ | ⟨state, hs, hc, heq⟩ := r.removeSurface_cases surface
  · have hnot : ¬ r.Registered surface := by
      rw [Registered, hs]
      exact Bool.false_ne_true
    have hiff : ∀ P : K → Prop, (∀ s, P s → r.Registered s) → ∀ s, P s ↔ P s ∧ s ∉ [surface] := by
      intro P hP s
      refine ⟨fun hs => ⟨hs, fun hm => ?_⟩, And.left⟩
      rw [mem_singleton] at hm
      exact hnot (hm ▸ hP s hs)
    rw [heq]
    refine ⟨h, Releases.refl _, hiff _ fun s hs => hs, fun v => hiff _ (h.listed v), fun s => ?_, fun v => rfl,
      fun _ => rfl⟩
    simp only [mem_singleton]
    split_ifs with hss
    · subst hss
      cases hroot : r.surfaceRoots.find s with
      | none => rfl
      | some v => exact absurd (h.rooted s v hroot) hnot
    · rfl
  · have hhold : holding r.surfaces surface = some a := by rw [holding, hs]; exact hc
    have hdetach := detachBuffer_counted (r := r.without surface) h.books hhold (holding_erase r.surfaces surface)
    rw [heq, detachBuffer_rest]
    refine removes_without h hdetach.1 hdetach.2 fun hnone => ?_
    rw [hhold] at hnone
    cases hnone
  · have hhold : holding r.surfaces surface = none := by rw [holding, hs]; exact hc
    rw [heq]
    refine removes_without h (h.books.same fun s => ?_) (Releases.refl _) fun _ => rfl
    grind [holding_erase]

theorem Removes.append {r₁ r₂ r₃ : SurfaceBufferRegistry K C D} {s₁ s₂ : List K} {l₁ l₂ : List SurfaceBufferId}
    (h : Removes r₁ s₁ l₁ r₂) (h' : Removes r₂ s₂ l₂ r₃)
    (hhold : ∀ s, holding r₁.surfaces s = none → holding r₂.surfaces s = none) :
    Removes r₁ (s₁ ++ s₂) (l₁ ++ l₂) r₃ where
  sound := h'.sound
  releases := h.releases.trans h'.releases
  registered := by
    grind [h'.registered, h.registered]
  listed := by
    grind [h'.listed, h.listed]
  roots := by
    grind [h'.roots, h.roots]
  views := fun v => (h'.views v).trans (h.views v)
  buffers := by
    grind [h'.buffers, h.buffers]

theorem removeSurface_holding (r : SurfaceBufferRegistry K C D) (surface s : K) (hs : holding r.surfaces s = none) :
    holding (r.removeSurface surface).2.surfaces s = none := by
  obtain ⟨-, heq⟩ | ⟨state, a, -, -, heq⟩ | ⟨state, -, -, heq⟩ := r.removeSurface_cases surface
  · rwa [heq]
  · rw [heq, detachBuffer_rest]
    exact (holding_erase r.surfaces surface s).trans (by rw [hs, ite_self])
  · rw [heq]
    exact (holding_erase r.surfaces surface s).trans (by rw [hs, ite_self])

theorem removeSurfaces_removes (h : r.Sound) (surfaces : List K) :
    Removes r surfaces (r.removeSurfaces surfaces).1 (r.removeSurfaces surfaces).2 := by
  induction surfaces generalizing r with
  | nil => exact ⟨h, Releases.refl _, by simp [removeSurfaces], by simp [removeSurfaces], by simp [removeSurfaces],
      fun v => rfl, fun _ => rfl⟩
  | cons surface rest ih =>
    have hone := removeSurface_removes h surface
    exact hone.append (ih hone.sound) (r.removeSurface_holding surface)

end Remove

section Update

variable [DecidableEq C] [DecidableEq D] {r r' r'' : SurfaceBufferRegistry K C D}

/-- What a commit changes: the attachments, and nothing of the views. -/
structure Updates (r : SurfaceBufferRegistry K C D) (released : List SurfaceBufferId)
    (r' : SurfaceBufferRegistry K C D) : Prop where
  sound : r'.Sound
  releases : Releases r.buffers released r'.buffers
  registered : ∀ s, r'.Registered s ↔ r.Registered s
  viewMembers : r'.viewMembers = r.viewMembers
  surfaceRoots : r'.surfaceRoots = r.surfaceRoots

omit [DecidableEq C] [DecidableEq D] in
theorem Updates.trans {xs ys : List SurfaceBufferId} (h : Updates r xs r') (h' : Updates r' ys r'') :
    Updates r (xs ++ ys) r'' where
  sound := h'.sound
  releases := h.releases.trans h'.releases
  registered := fun s => (h'.registered s).trans (h.registered s)
  viewMembers := h'.viewMembers.trans h.viewMembers
  surfaceRoots := h'.surfaceRoots.trans h.surfaceRoots

omit [DecidableEq C] [DecidableEq D] in
theorem holding_insert (surfaces : Map K (SurfaceState K C D)) (surface s : K) (state : SurfaceState K C D) :
    holding (surfaces.insert surface state) s = if s = surface then state.current else holding surfaces s := by
  grind [holding, Map.find_insert]

section Insert

omit [DecidableEq C] [DecidableEq D]

variable {surface : K} {state state' : SurfaceState K C D} {surfaces' : Map K (SurfaceState K C D)}

theorem find_insert_id (hs : r.surfaces.find surface = some state) (hid : state'.id = state.id) (s : K)
    (x : SurfaceState K C D) (hx : (r.surfaces.insert surface state').find s = some x) :
    ∃ x', r.surfaces.find s = some x' ∧ x'.id = x.id := by
  grind [Map.find_insert]

theorem named_insert (h : r.Sound)
    (hold : ∀ s x, surfaces'.find s = some x → ∃ x', r.surfaces.find s = some x' ∧ x'.id = x.id) :
    ∀ s t x y, surfaces'.find s = some x → surfaces'.find t = some y → x.id = y.id → s = t := by
  grind [h.named]

theorem spent_insert (h : r.Sound)
    (hold : ∀ s x, surfaces'.find s = some x → ∃ x', r.surfaces.find s = some x' ∧ x'.id = x.id) :
    ∀ s x, surfaces'.find s = some x → 1 ≤ x.id ∧ x.id < r.nextSurfaceId := by
  intro s x hx
  obtain ⟨x', hx', hidx⟩ := hold s x hx
  rw [← hidx]
  exact h.spent s x' hx'

theorem card_holders_insert (h : r.Sound) (hs : r.surfaces.find surface = some state) (hid : state'.id = state.id)
    (object : K) : (holders (r.surfaces.insert surface state') object).card < 2 ^ 64 :=
  card_holders_lt (named_insert h (find_insert_id hs hid)) (spent_insert h (find_insert_id hs hid)) h.room object

end Insert

omit [DecidableEq C] [DecidableEq D] in
/-- Another state under the same id, with the books settled for what it shows. -/
theorem updates_insert (h : r.Sound) {surface : K} {state state' : SurfaceState K C D}
    (hs : r.surfaces.find surface = some state) (hid : state'.id = state.id) {released : List SurfaceBufferId}
    {buffers : Map K BufferState} (hbooks : Counted (r.surfaces.insert surface state') buffers)
    (hrel : Releases r.buffers released buffers) :
    Updates r released { r with buffers := buffers, surfaces := r.surfaces.insert surface state' } := by
  have hold := find_insert_id hs hid
  have hreg : ∀ s, (((r.surfaces.insert surface state').find s).isSome : Prop) ↔ r.Registered s := by
    intro s
    rw [Map.find_insert, Registered]
    split_ifs with hss
    · simp [hss, hs]
    · rfl
  refine ⟨⟨hbooks, named_insert h hold, spent_insert (r := r) h hold, h.first, h.room, ?_, ?_⟩, hrel, hreg, rfl, rfl⟩
  · exact fun v s hl => (hreg s).mpr (h.listed v s hl)
  · exact fun s v hv => (hreg s).mpr (h.rooted s v hv)

omit [DecidableEq C] [DecidableEq D] in
theorem nextAttachment_eq_some {state : SurfaceState K C D} {snapshot : SurfaceCommit K C D} {next : AttachedBuffer K}
    (h : r.nextAttachment state snapshot = some next) :
    ∃ record, r.buffers.find next.object = some record ∧ record.id = next.id
      ∧ (record.destroyed → state.current.map AttachedBuffer.object = some next.object) := by
  grind -linarith [nextAttachment, Option.bind_eq_some_iff]

omit [DecidableEq K] in
theorem committed_current_of_differs {state : SurfaceState K C D} {next : Option (AttachedBuffer K)}
    {snapshot : SurfaceCommit K C D} [DecidableEq K] (h : state.current.map AttachedBuffer.id ≠ next.map AttachedBuffer.id) :
    (state.committed next snapshot).current = next := by
  rw [SurfaceState.committed]
  simp [SurfaceState.differs, h]

omit [DecidableEq C] [DecidableEq D] in
theorem replaceAttachment_counted (h : r.Sound) {surface : K} {current next : Option (AttachedBuffer K)}
    (hcurrent : holding r.surfaces surface = current) {surfaces' : Map K (SurfaceState K C D)}
    (hs' : ∀ s, holding surfaces' s = if s = surface then next else holding r.surfaces s)
    (hnext : ∀ a, next = some a → ∃ record, r.buffers.find a.object = some record ∧ record.id = a.id)
    (hroom : ∀ o, (holders surfaces' o).card < 2 ^ 64)
    (hne : current.map AttachedBuffer.object ≠ next.map AttachedBuffer.object) :
    Counted surfaces' (r.replaceAttachment current next).2.buffers
      ∧ Releases r.buffers (r.replaceAttachment current next).1 (r.replaceAttachment current next).2.buffers := by
  cases current with
  | none => grind [replaceAttachment, attachBuffer_counted, h.books]
  | some a =>
    have hdetach := detachBuffer_counted (r := r) h.books hcurrent (holding_erase r.surfaces surface)
    have hgone : holding (r.surfaces.erase surface) surface = none := by rw [holding_erase, if_pos rfl]
    have hback : ∀ s, holding surfaces' s = if s = surface then next else holding (r.surfaces.erase surface) s := by
      intro s
      rw [hs', holding_erase]
      split_ifs <;> rfl
    cases next with
    | none => grind [replaceAttachment, hdetach.1.same]
    | some next =>
      have hobj : next.object ≠ a.object := fun heq => hne (congrArg some heq.symm)
      have hlive := hnext next rfl
      rw [← r.detachBuffer_find_of_ne hobj] at hlive
      have hattach := attachBuffer_counted (r := (r.detachBuffer a.object).2) hdetach.1 hgone hback hlive (hroom _)
      rw [replaceAttachment, if_pos hne]
      have hrel := hdetach.2.trans hattach.2
      grind

omit [DecidableEq C] [DecidableEq D] in
@[simp] theorem replaceAttachment_rest (r : SurfaceBufferRegistry K C D) (current next : Option (AttachedBuffer K)) :
    (r.replaceAttachment current next).2 = { r with buffers := (r.replaceAttachment current next).2.buffers } := by
  rw [replaceAttachment.eq_def]
  split_ifs with hne
  · grind [attachBuffer, detachBuffer_rest]
  · rfl

theorem committed_current_of_object (snapshot : SurfaceCommit K C D) {state : SurfaceState K C D}
    {next : Option (AttachedBuffer K)} (h : state.current.map AttachedBuffer.object = next.map AttachedBuffer.object)
    (hid : ∀ a n, state.current = some a → next = some n → a.id = n.id) :
    ((state.committed next snapshot).current).map (fun a => (a.object, a.id))
      = state.current.map fun a => (a.object, a.id) := by
  have hnext : next.map (fun a => (a.object, a.id)) = state.current.map fun a => (a.object, a.id) := by
    cases hc : state.current with
    | none => cases hn : next <;> simp_all
    | some a =>
      cases hn : next with
      | none => simp [hc, hn] at h
      | some n => grind
  grind [SurfaceState.committed]

theorem updateSurface_updates (h : r.Sound) (surface : K) (snapshot : SurfaceCommit K C D) :
    Updates r (r.updateSurface surface snapshot).1.releasedBuffers (r.updateSurface surface snapshot).2 := by
  cases hs : r.surfaces.find surface with
  | none =>
    simp only [updateSurface, hs]
    exact ⟨h, Releases.refl _, fun s => Iff.rfl, rfl, rfl⟩
  | some state =>
    simp only [updateSurface, hs]
    have hhold : holding r.surfaces surface = state.current := by rw [holding, hs]; rfl
    have hspec := fun a (ha : r.nextAttachment state snapshot = some a) => nextAttachment_eq_some ha
    generalize r.nextAttachment state snapshot = next at hspec ⊢
    have hsame : (state.committed next snapshot).id = state.id := rfl
    grind -linarith [replaceAttachment.eq_def, committed_current_of_object, h.books.held, updates_insert, h.books.same,
        Releases.refl, holding_insert, h.books.apart, replaceAttachment_counted, committed_current_of_differs,
        card_holders_insert, replaceAttachment_rest]

end Update

end TensorDE.Protocol.SurfaceBufferRegistry
