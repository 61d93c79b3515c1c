import TensorDE.Protocol.Registry
import Mathlib.Order.Interval.Finset.Nat

set_option linter.dupNamespace false

namespace TensorDE.Protocol

open TensorDE.Maps TensorDE.Effect List

variable {K C D : Type} [DecidableEq K] (surfaces : Map K (SurfaceState K C D))

def holding (surface : K) : Option (AttachedBuffer K) :=
  (surfaces.find surface).bind SurfaceState.current

def holders (object : K) : Finset K :=
  surfaces.keySet.filter fun surface => (holding surfaces surface).map AttachedBuffer.object = some object

theorem mem_holders {surfaces : Map K (SurfaceState K C D)} {object surface : K} :
    surface ∈ holders surfaces object ↔ ∃ a, holding surfaces surface = some a ∧ a.object = object := by
  rw [holders, Finset.mem_filter, Option.map_eq_some_iff, and_iff_right_iff_imp]
  rintro ⟨a, ha, -⟩
  rw [holding, Option.bind_eq_some_iff] at ha
  obtain ⟨state, hstate, -⟩ := ha
  exact Map.mem_keySet.mpr ⟨state, hstate⟩

def Live (buffers : Map K BufferState) (id : SurfaceBufferId) : Prop :=
  ∃ object record, buffers.find object = some record ∧ record.id = id

/-- The attachment counts agree with what the surfaces show, and a destroyed buffer stays only
while it is shown. -/
structure Counted (surfaces : Map K (SurfaceState K C D)) (buffers : Map K BufferState) : Prop where
  counted : ∀ object record, buffers.find object = some record → record.attachments = (holders surfaces object).card
  held : ∀ surface a, holding surfaces surface = some a →
    ∃ record, buffers.find a.object = some record ∧ record.id = a.id
  apart : ∀ object object' record record', buffers.find object = some record →
    buffers.find object' = some record' → record.id = record'.id → object = object'
  kept : ∀ object record, buffers.find object = some record → record.destroyed → record.attachments ≠ 0

/-- The buffers between two moments at which only dead ones have gone, each giving its id back. -/
structure Releases (before : Map K BufferState) (released : List SurfaceBufferId) (after : Map K BufferState) :
    Prop where
  nodup : released.Nodup
  gone : ∀ id ∈ released, ¬ Live after id ∧ ∃ object record, before.find object = some record ∧ record.id = id
    ∧ record.destroyed
  rest : ∀ id, Live before id → id ∈ released ∨ Live after id
  old : ∀ object record, after.find object = some record →
    ∃ record', before.find object = some record' ∧ record'.id = record.id ∧ record'.destroyed = record.destroyed

namespace Releases

variable {b₁ b₂ b₃ : Map K BufferState} {xs ys : List SurfaceBufferId}

theorem refl (b : Map K BufferState) : Releases b [] b where
  nodup := nodup_nil
  gone := by simp
  rest := fun id h => .inr h
  old := fun object record h => ⟨record, h, rfl, rfl⟩

theorem live_of_live (h : Releases b₁ xs b₂) {id : SurfaceBufferId} (hl : Live b₂ id) : Live b₁ id := by
  obtain ⟨object, record, hr, rfl⟩ := hl
  obtain ⟨record', hr', hid, -⟩ := h.old object record hr
  exact ⟨object, record', hr', hid⟩

theorem trans (h : Releases b₁ xs b₂) (h' : Releases b₂ ys b₃) : Releases b₁ (xs ++ ys) b₃ where
  nodup := by
    rw [nodup_append]
    refine ⟨h.nodup, h'.nodup, fun id hx id' hy heq => ?_⟩
    subst heq
    obtain ⟨-, object, record, hr, hid, -⟩ := h'.gone id hy
    exact (h.gone id hx).1 ⟨object, record, hr, hid⟩
  gone := by
    grind +splitImp +splitIndPred [h'.live_of_live, h'.gone]
  rest := by
    grind [h.rest, h'.rest]
  old := by
    grind [h'.old, h.old]

theorem of_find (h : ∀ object, (b₂.find object).map (fun r => (r.id, r.destroyed))
    = (b₁.find object).map fun r => (r.id, r.destroyed)) : Releases b₁ [] b₂ where
  nodup := nodup_nil
  gone := by simp
  rest := by
    rintro id ⟨object, record, hr, rfl⟩
    have ho := h object
    rw [hr, Option.map_some, Option.map_eq_some_iff] at ho
    obtain ⟨record', hr', he⟩ := ho
    exact .inr ⟨object, record', hr', congrArg Prod.fst he⟩
  old := by
    grind [Option.map_eq_some_iff]

end Releases

namespace SurfaceBufferRegistry

variable (r : SurfaceBufferRegistry K C D) (object : K)

theorem collectDestroyed_cases :
    (∃ record, r.buffers.find object = some record ∧ record.destroyed ∧ record.attachments = 0
      ∧ r.collectDestroyed object = (some record.id, { r with buffers := r.buffers.erase object }))
    ∨ ((∀ record, r.buffers.find object = some record → record.destroyed → record.attachments ≠ 0)
      ∧ r.collectDestroyed object = (none, r)) := by
  grind -linarith [collectDestroyed]

@[simp] theorem collectDestroyed_rest :
    (r.collectDestroyed object).2 = { r with buffers := (r.collectDestroyed object).2.buffers } := by
  obtain ⟨record, -, -, -, h⟩ | ⟨-, h⟩ := r.collectDestroyed_cases object <;> rw [h]

/-- Collecting keeps the books of the others, and settles those of its own buffer. -/
theorem collectDestroyed_counted (surfaces : Map K (SurfaceState K C D)) (object : K)
    (hcount : ∀ o record, r.buffers.find o = some record → record.attachments = (holders surfaces o).card)
    (hheld : ∀ s a, holding surfaces s = some a → ∃ record, r.buffers.find a.object = some record ∧ record.id = a.id)
    (hapart : ∀ o o' b b', r.buffers.find o = some b → r.buffers.find o' = some b' → b.id = b'.id → o = o')
    (hkept : ∀ o record, o ≠ object → r.buffers.find o = some record → record.destroyed → record.attachments ≠ 0) :
    Counted surfaces (r.collectDestroyed object).2.buffers
      ∧ Releases r.buffers (r.collectDestroyed object).1.toList (r.collectDestroyed object).2.buffers := by
  obtain ⟨record, hr, hdead, hzero, h⟩ | ⟨halive, h⟩ := r.collectDestroyed_cases object
  · rw [h]
    have hfind : ∀ o b, (r.buffers.erase object).find o = some b ↔ o ≠ object ∧ r.buffers.find o = some b := by
      intro o b
      rw [Map.find_erase]
      by_cases ho : o = object <;> simp [ho]
    refine ⟨⟨?_, ?_, ?_, ?_⟩, ⟨?_, ?_, ?_, ?_⟩⟩
    · grind
    · intro s a ha
      obtain ⟨b, hb, hid⟩ := hheld s a ha
      refine ⟨b, (hfind _ b).mpr ⟨fun heq => ?_, hb⟩, hid⟩
      -- a surface that shows the buffer is one of those its record counts
      have hmem : s ∈ holders surfaces object := mem_holders.mpr ⟨a, ha, heq⟩
      grind
    · grind
    · grind -linarith
    · exact nodup_singleton record.id
    · intro id hid
      obtain rfl : id = record.id := by simpa using hid
      refine ⟨?_, object, record, hr, rfl, hdead⟩
      rintro ⟨o, b, hb, hb'⟩
      grind
    · rintro id ⟨o, b, hb, rfl⟩
      by_cases ho : o = object
      · grind
      · exact .inr ⟨o, b, (hfind o b).mpr ⟨ho, hb⟩, rfl⟩
    grind -linarith
  · rw [h]
    refine ⟨⟨hcount, hheld, hapart, ?_⟩, Releases.refl r.buffers⟩
    grind -linarith

end SurfaceBufferRegistry

namespace Counted

variable {surfaces surfaces' : Map K (SurfaceState K C D)} {buffers buffers' : Map K BufferState} {surface : K}
  {a : AttachedBuffer K}

theorem same (h : Counted surfaces buffers)
    (hs : ∀ s, (holding surfaces' s).map (fun a => (a.object, a.id)) = (holding surfaces s).map fun a => (a.object, a.id)) :
    Counted surfaces' buffers := by
  have hback : ∀ s a, holding surfaces' s = some a →
      ∃ a', holding surfaces s = some a' ∧ a'.object = a.object ∧ a'.id = a.id := by
    intro s a ha
    have heq := hs s
    rw [ha, Option.map_some, eq_comm, Option.map_eq_some_iff] at heq
    obtain ⟨a', ha', he⟩ := heq
    exact ⟨a', ha', congrArg Prod.fst he, congrArg Prod.snd he⟩
  have hholders : ∀ o, holders surfaces' o = holders surfaces o := by
    intro o
    ext s
    rw [mem_holders, mem_holders]
    constructor
    · rintro ⟨a, ha, rfl⟩
      obtain ⟨a', ha', ho, -⟩ := hback s a ha
      exact ⟨a', ha', ho⟩
    · rintro ⟨a, ha, rfl⟩
      have heq := hs s
      rw [ha, Option.map_some, Option.map_eq_some_iff] at heq
      obtain ⟨a', ha', he⟩ := heq
      exact ⟨a', ha', congrArg Prod.fst he⟩
  refine ⟨?_, ?_, h.apart, h.kept⟩
  · grind [h.counted]
  grind [h.held]

theorem holders_vacated (hs : holding surfaces surface = some a)
    (hs' : ∀ s, holding surfaces' s = if s = surface then none else holding surfaces s) (o : K) :
    holders surfaces' o = if o = a.object then (holders surfaces o).erase surface else holders surfaces o := by
  grind [mem_holders]

theorem holders_occupied (hs : holding surfaces surface = none)
    (hs' : ∀ s, holding surfaces' s = if s = surface then some a else holding surfaces s) (o : K) :
    holders surfaces' o = if o = a.object then insert surface (holders surfaces o) else holders surfaces o := by
  grind [mem_holders]

end Counted

namespace SurfaceBufferRegistry

variable {r : SurfaceBufferRegistry K C D} {surfaces' : Map K (SurfaceState K C D)} {surface : K} {a : AttachedBuffer K}

@[simp] theorem detachBuffer_rest (r : SurfaceBufferRegistry K C D) (object : K) :
    (r.detachBuffer object).2 = { r with buffers := (r.detachBuffer object).2.buffers } := by
  rw [detachBuffer, collectDestroyed_rest]

variable {surfaces : Map K (SurfaceState K C D)}

theorem detachBuffer_counted (h : Counted surfaces r.buffers) (hs : holding surfaces surface = some a)
    (hs' : ∀ s, holding surfaces' s = if s = surface then none else holding surfaces s) :
    Counted surfaces' (r.detachBuffer a.object).2.buffers
      ∧ Releases r.buffers (r.detachBuffer a.object).1 (r.detachBuffer a.object).2.buffers := by
  have hmem : surface ∈ holders surfaces a.object := mem_holders.mpr ⟨a, hs, rfl⟩
  have hholders := Counted.holders_vacated hs hs'
  have hfind : ∀ o b, (r.buffers.modify a.object fun record =>
      { record with attachments := record.attachments - 1 }).find o = some b →
      ∃ b', r.buffers.find o = some b' ∧ b'.id = b.id ∧ b'.destroyed = b.destroyed
        ∧ b.attachments = if o = a.object then b'.attachments - 1 else b'.attachments := by
    intro o b hb
    rw [Map.find_modify] at hb
    split_ifs at hb ⊢ with ho
    · rw [Option.map_eq_some_iff] at hb
      obtain ⟨b', hb', rfl⟩ := hb
      exact ⟨b', hb', rfl, rfl, rfl⟩
    · exact ⟨b, hb, rfl, rfl, rfl⟩
  have hrel : Releases r.buffers [] (r.buffers.modify a.object fun record =>
      { record with attachments := record.attachments - 1 }) := by
    refine Releases.of_find fun o => ?_
    rw [Map.find_modify]
    split_ifs with ho
    · rw [Option.map_map]
      rfl
    · rfl
  have hcollect := collectDestroyed_counted
    { r with buffers := r.buffers.modify a.object fun record => { record with attachments := record.attachments - 1 } }
    surfaces' a.object
    (fun o b hb => by
      grind [h.counted])
    (fun s a' ha' => by
      grind [h.held, Map.find_modify])
    (fun o o' b b' hb hb' hid => by
      grind -linarith [h.apart])
    (fun o b hne hb hd => by
      grind -linarith [h.kept])
  exact ⟨hcollect.1, hrel.trans hcollect.2⟩

theorem detachBuffer_find_of_ne (r : SurfaceBufferRegistry K C D) {object o : K} (hne : o ≠ object) :
    (r.detachBuffer object).2.buffers.find o = r.buffers.find o := by
  grind [detachBuffer, SurfaceBufferRegistry.collectDestroyed_cases, Map.find_erase, Map.find_modify]

theorem attachBuffer_counted (h : Counted surfaces r.buffers) (hs : holding surfaces surface = none)
    (hs' : ∀ s, holding surfaces' s = if s = surface then some a else holding surfaces s)
    (ha : ∃ record, r.buffers.find a.object = some record ∧ record.id = a.id)
    (hroom : (holders surfaces' a.object).card < 2 ^ 64) : Counted surfaces' (r.attachBuffer a.object).buffers
      ∧ Releases r.buffers [] (r.attachBuffer a.object).buffers := by
  have hholders := Counted.holders_occupied hs hs'
  have hnot : surface ∉ holders surfaces a.object := by
    rw [mem_holders, hs]
    simp
  have hfind : ∀ o b, (r.attachBuffer a.object).buffers.find o = some b →
      ∃ b', r.buffers.find o = some b' ∧ b'.id = b.id ∧ b'.destroyed = b.destroyed
        ∧ b.attachments = if o = a.object then saturatingAdd b'.attachments 1 else b'.attachments := by
    intro o b hb
    rw [attachBuffer, Map.find_modify] at hb
    split_ifs at hb ⊢ with ho
    · rw [Option.map_eq_some_iff] at hb
      obtain ⟨b', hb', rfl⟩ := hb
      exact ⟨b', hb', rfl, rfl, rfl⟩
    · exact ⟨b, hb, rfl, rfl, rfl⟩
  have hcount : ∀ o b, (r.attachBuffer a.object).buffers.find o = some b →
      b.attachments = (holders surfaces' o).card := by
    intro o b hb
    obtain ⟨b', hb', -, -, hatt⟩ := hfind o b hb
    rw [hatt, hholders, h.counted o b' hb']
    split_ifs with ho
    · subst ho
      rw [hholders, if_pos rfl, Finset.card_insert_of_notMem hnot] at hroom
      rw [Finset.card_insert_of_notMem hnot, saturatingAdd]
      omega
    · rfl
  refine ⟨⟨hcount, ?_, ?_, ?_⟩, ?_⟩
  · grind [h.held, attachBuffer, Map.find_modify]
  · grind [h.apart]
  · grind -linarith [h.kept]
  grind [Releases.of_find, attachBuffer, Map.find_modify]

end SurfaceBufferRegistry

end TensorDE.Protocol
