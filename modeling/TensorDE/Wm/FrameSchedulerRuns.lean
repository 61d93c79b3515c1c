import TensorDE.Lib.Keyed
import TensorDE.Wm.FrameSchedulerCalls

set_option linter.dupNamespace false

namespace TensorDE.Wm

open Effect Maps Renderer Trace Keyed List

variable {Scene Overlay Capture Damage : Type}

def FrameSubmission.range (frame : FrameSubmission Scene Overlay Damage) : Ranges.Range :=
  ⟨frame.descriptors.offset, frame.descriptors.offset + frame.descriptors.size⟩

variable (id : Nat)

def FrameSubmission.allocation (frame : FrameSubmission Scene Overlay Damage) : DescriptorAllocation :=
  ⟨frame.range, id⟩

/-- What the scheduler notes of a frame until it is committed. -/
def FrameSubmission.preparedState (frame : FrameSubmission Scene Overlay Damage) : PreparedFrameState :=
  ⟨frame.timelineValue, frame.serial, frame.outputSlot, frame.descriptors, frame.allocation id⟩

/-- What the last of the frames in a slot left there; the newest frame comes first. -/
def lastIn (slot : Fin 3) (frames : List (FrameSubmission Scene Overlay Damage)) : OutputSlotHistory Scene Overlay :=
  match frames.find? fun frame => frame.outputSlot = slot with
  | none => .new
  | some frame => ⟨some frame.scene, frame.cursors⟩

namespace FrameScheduler

/-- A scheduler and what its callers know of the frames, the newest first. -/
structure Session (Scene Overlay Damage : Type) where
  scheduler : FrameScheduler Scene Overlay
  /-- The highest timeline value reported as completed. -/
  completed : UInt64
  issued : List (FrameSubmission Scene Overlay Damage)
  /-- Frames issued that are neither committed nor aborted, on outputs that are still there. -/
  live : List (FrameSubmission Scene Overlay Damage)
  submitted : List (FrameSubmission Scene Overlay Damage)
  aborted : List (FrameSubmission Scene Overlay Damage)
  /-- The frames committed to an output since it was registered. -/
  committed : RenderOutputId → List (FrameSubmission Scene Overlay Damage)
  /-- The frames committed to an output since its target was set. -/
  onTarget : RenderOutputId → List (FrameSubmission Scene Overlay Damage)

def Session.start (scheduler : FrameScheduler Scene Overlay) : Session Scene Overlay Damage :=
  ⟨scheduler, 0, [], [], [], [], fun _ => [], fun _ => []⟩

inductive Event (Scene Overlay Capture Damage : Type) where
  | registerOutput (target : NativeOutputTarget) (result : Except FrameError Unit)
  | unregisterOutput (output : RenderOutputId)
  | prepare (output : RenderOutputId) (scene : Scene) (overlays : List Overlay) (capture : Option Capture)
      (completedTimeline timelineValue : UInt64) (result : Except FrameError (FrameSubmission Scene Overlay Damage))
  | commit (frame : FrameSubmission Scene Overlay Damage) (result : Except FrameError Unit)
  | abort (frame : FrameSubmission Scene Overlay Damage) (result : Except FrameError Unit)
  | retireCompleted (timelineValue : UInt64)
  | advanceOutputSlot (output : RenderOutputId)
  | markDeviceLost

variable (s : Session Scene Overlay Damage)

def Session.targetIs (target : NativeOutputTarget) : Prop :=
  ∃ state, s.scheduler.outputs.find target.output = some state ∧ state.target = target

def Session.without (frame : FrameSubmission Scene Overlay Damage) :
    List (FrameSubmission Scene Overlay Damage) :=
  s.live.filter fun other => other.timelineValue ≠ frame.timelineValue

/-- The calls in the order the callers make them. Completed timelines do not go back, a new frame comes
with a timeline value above those of the frames before it, and only issued frames are committed or
aborted. -/
inductive Step (planner : Planner Scene Overlay Capture Damage) :
    Session Scene Overlay Damage → Event Scene Overlay Capture Damage → Session Scene Overlay Damage → Prop where
  | registeredSame {s t target} : registerOutput target s.scheduler = .ok () t → s.targetIs target →
      Step planner s (.registerOutput target (.ok ())) { s with scheduler := t }
  | registered {s t target} : registerOutput target s.scheduler = .ok () t → ¬s.targetIs target →
      Step planner s (.registerOutput target (.ok ())) {
        s with
        scheduler := t
        onTarget := Function.update s.onTarget target.output [] }
  | registerFailed {s t target e} : registerOutput target s.scheduler = .error (.error e) t →
      Step planner s (.registerOutput target (.error e)) { s with scheduler := t }
  | unregistered {s t output} : unregisterOutput output s.scheduler = .ok () t →
      Step planner s (.unregisterOutput output) {
        s with
        scheduler := t
        live := s.live.filter fun frame => frame.target.output ≠ output
        committed := Function.update s.committed output []
        onTarget := Function.update s.onTarget output [] }
  | prepared {s t output scene overlays capture completed timeline frame} : s.completed ≤ completed →
      (∀ earlier ∈ s.issued, earlier.timelineValue < timeline) →
      prepareWithCursorsForTimeline planner output scene overlays capture completed timeline s.scheduler = .ok frame t →
      Step planner s (.prepare output scene overlays capture completed timeline (.ok frame)) {
        s with
        scheduler := t
        completed
        issued := frame :: s.issued
        live := frame :: s.live }
  | prepareFailed {s t output scene overlays capture completed timeline e} : s.completed ≤ completed →
      prepareWithCursorsForTimeline planner output scene overlays capture completed timeline s.scheduler =
        .error (.error e) t →
      Step planner s (.prepare output scene overlays capture completed timeline (.error e)) {
        s with
        scheduler := t
        completed }
  | committed {s t frame} : frame ∈ s.issued → commit frame s.scheduler = .ok () t →
      Step planner s (.commit frame (.ok ())) {
        s with
        scheduler := t
        live := s.without frame
        submitted := frame :: s.submitted
        committed := Function.update s.committed frame.target.output (frame :: s.committed frame.target.output)
        onTarget := Function.update s.onTarget frame.target.output (frame :: s.onTarget frame.target.output) }
  | commitFailed {s t frame e} : frame ∈ s.issued → commit frame s.scheduler = .error (.error e) t →
      Step planner s (.commit frame (.error e)) { s with scheduler := t }
  | aborted {s t frame} : frame ∈ s.issued → abort frame s.scheduler = .ok () t →
      Step planner s (.abort frame (.ok ())) {
        s with
        scheduler := t
        live := s.without frame
        aborted := frame :: s.aborted }
  | abortFailed {s t frame e} : frame ∈ s.issued → abort frame s.scheduler = .error (.error e) t →
      Step planner s (.abort frame (.error e)) { s with scheduler := t }
  | retired {s t timeline} : s.completed ≤ timeline → retireCompleted timeline s.scheduler = .ok () t →
      Step planner s (.retireCompleted timeline) {
        s with
        scheduler := t
        completed := timeline }
  | advanced {s t output answer} : advanceOutputSlot output s.scheduler = .ok answer t →
      Step planner s (.advanceOutputSlot output) { s with scheduler := t }
  | deviceLost {s t} : markDeviceLost s.scheduler = .ok () t → Step planner s .markDeviceLost { s with scheduler := t }

/-- The allocator as its callers see it: the live frames hold what is outstanding. -/
def Session.heap : DescriptorHeapAllocator.Session :=
  ⟨s.scheduler.descriptors, s.live.map (FrameSubmission.allocation s.scheduler.descriptors.id)⟩

def Session.preparedOn (output : RenderOutputId) :
    Option (FrameSubmission Scene Overlay Damage) :=
  s.live.find? fun frame => frame.target.output = output

/-- What an output's own fields say about its frames. -/
structure OutputBooks (s : Session Scene Overlay Damage) (output : RenderOutputId) (state : OutputFrameState Scene Overlay) :
    Prop where
  target : state.target.output = output
  prepared : state.prepared = (s.preparedOn output).map (FrameSubmission.preparedState s.scheduler.descriptors.id)
  nextSerial : state.nextSerial = (s.committed output).length + 1
  serials : ((s.committed output).map FrameSubmission.serial).reverse = List.range' 1 (s.committed output).length
  slotHistory : ∀ slot, state.slotHistory slot = lastIn slot (s.onTarget output)
  lastSubmitted : ∀ last ∈ (s.committed output).head?, state.lastSubmittedTimeline = last.timelineValue
  completed : state.inFlight = false → ∀ last ∈ (s.committed output).head?, last.timelineValue ≤ s.completed

structure Books (s : Session Scene Overlay Damage) : Prop where
  heap : DescriptorHeapAllocator.Sound s.heap
  outputs : ∀ output state, s.scheduler.outputs.find output = some state → OutputBooks s output state
  gone : ∀ output, s.scheduler.outputs.find output = none → s.committed output = [] ∧ s.onTarget output = []
  apart : (s.live.map fun frame => frame.target.output).Nodup
  serial : ∀ frame ∈ s.live, ∃ state, s.scheduler.outputs.find frame.target.output = some state ∧
    frame.serial = state.nextSerial ∧ frame.serial + 1 < 2 ^ 64
  timeline : ∀ frame ∈ s.live, frame.timelineValue ≠ 0
  issued : ∀ frame ∈ s.live ++ s.submitted ++ s.aborted, frame ∈ s.issued
  increasing : (s.issued.map FrameSubmission.timelineValue).Pairwise (· > ·)
  once : ((s.live ++ s.submitted ++ s.aborted).map FrameSubmission.timelineValue).Nodup
  retired : ∀ entry ∈ s.scheduler.descriptors.retired, ∃ frame ∈ s.submitted,
    entry = (frame.timelineValue.toNat, frame.range)
  waiting : ∀ frame ∈ s.submitted, s.completed < frame.timelineValue →
    (frame.timelineValue.toNat, frame.range) ∈ s.scheduler.descriptors.retired

section Books

variable {s t : Session Scene Overlay Damage} {output : RenderOutputId} {state : OutputFrameState Scene Overlay}
  {frame : FrameSubmission Scene Overlay Damage} {planner : Planner Scene Overlay Capture Damage}

/-- Where nothing about an output has changed its books stay right. -/
theorem OutputBooks.congr (h : OutputBooks s output state) (hid : t.scheduler.descriptors.id = s.scheduler.descriptors.id)
    (hprepared : t.preparedOn output = s.preparedOn output) (hcommitted : t.committed output = s.committed output)
    (honTarget : t.onTarget output = s.onTarget output) (hle : s.completed ≤ t.completed) : OutputBooks t output state where
  target := h.target
  prepared := by rw [hid, hprepared, h.prepared]
  nextSerial := by rw [hcommitted, h.nextSerial]
  serials := by rw [hcommitted, h.serials]
  slotHistory slot := by rw [honTarget, h.slotHistory]
  lastSubmitted := by
    rw [hcommitted]
    exact h.lastSubmitted
  completed hflight last hlast := by
    rw [hcommitted] at hlast
    exact UInt64.le_trans (h.completed hflight last hlast) hle

theorem Books.preparedOn_iff (h : Books s) : s.preparedOn output = some frame ↔ frame ∈ s.live ∧ frame.target.output = output :=
  find?_key h.apart

theorem preparedOn_none : s.preparedOn output = none ↔ ∀ frame ∈ s.live, frame.target.output ≠ output := find?_key_none

variable {other : FrameSubmission Scene Overlay Damage}

theorem Books.eq_of_timeline (h : Books s) (hframe : frame ∈ s.issued)
    (hother : other ∈ s.issued) (heq : other.timelineValue = frame.timelineValue) : other = frame := by
  grind [h.increasing.imp, inj_on_of_nodup_map]

theorem Books.live_issued (h : Books s) (hframe : frame ∈ s.live) : frame ∈ s.issued :=
  h.issued frame (mem_append_left _ (mem_append_left _ hframe))

theorem Books.live (h : Books s) (hframe : frame ∈ s.live) : ∃ state,
    s.scheduler.outputs.find frame.target.output = some state ∧
      state.prepared = some (frame.preparedState s.scheduler.descriptors.id) ∧ frame.serial = state.nextSerial ∧
      frame.serial + 1 < 2 ^ 64 := by
  obtain ⟨state, hfind, hserial, hlt⟩ := h.serial frame hframe
  refine ⟨state, hfind, ?_, hserial, hlt⟩
  rw [(h.outputs _ _ hfind).prepared, h.preparedOn_iff.mpr ⟨hframe, rfl⟩, Option.map_some]

theorem Books.taken (h : Books s) (hissued : frame ∈ s.issued) :
    (frame ∈ s.live ∧ ∃ state, s.scheduler.outputs.find frame.target.output = some state ∧
      frame.serial = state.nextSerial ∧ frame.serial + 1 < 2 ^ 64 ∧ takePrepared frame s.scheduler =
        .ok ({ state with prepared := none }, frame.preparedState s.scheduler.descriptors.id) {
          s.scheduler with
          outputs := s.scheduler.outputs.insert frame.target.output { state with prepared := none } }) ∨
    (frame ∉ s.live ∧ ∃ e, takePrepared frame s.scheduler = .error (.error e) s.scheduler) := by
  obtain ⟨held, prepared, hfind, hprepared, hfor, htake⟩ | ⟨hstale, e, htake⟩ := takePrepared_run s.scheduler frame
  · -- What is prepared belongs to a live frame, and its timeline value says which.
    have hbooks := (h.outputs _ _ hfind).prepared
    rw [hprepared] at hbooks
    obtain ⟨other, hother, heq⟩ := Option.map_eq_some_iff.mp hbooks.symm
    obtain ⟨hlive, -⟩ := h.preparedOn_iff.mp hother
    simp only [PreparedFrameState.isFor, Bool.and_eq_true, beq_iff_eq] at hfor
    have htimeline : other.timelineValue = frame.timelineValue := by rw [← hfor.1.1.1, ← heq, FrameSubmission.preparedState]
    obtain rfl := h.eq_of_timeline hissued (h.live_issued hlive) htimeline
    grind [h.live]
  grind [h.live, PreparedFrameState.isFor, FrameSubmission.preparedState]

theorem Books.allocation_mem (hframe : frame ∈ s.live) :
    frame.allocation s.scheduler.descriptors.id ∈ s.heap.outstanding := mem_map_of_mem hframe

theorem Books.commit_run (h : Books s) (hissued : frame ∈ s.issued) :
    (frame ∈ s.live ∧ ∃ state descriptors, s.scheduler.outputs.find frame.target.output = some state ∧
      frame.serial = state.nextSerial ∧ DescriptorHeapAllocator.retireAtTimeline
        (frame.allocation s.scheduler.descriptors.id) frame.timelineValue s.scheduler.descriptors = .ok () descriptors ∧
      commit frame s.scheduler = .ok () {
        s.scheduler with
        descriptors
        outputs := s.scheduler.outputs.insert frame.target.output
          (OutputFrameState.committed state (frame.preparedState s.scheduler.descriptors.id) frame) }) ∨
    (frame ∉ s.live ∧ ∃ e, commit frame s.scheduler = .error (.error e) s.scheduler) := by
  obtain ⟨hlive, state, hfind, hserial, hlt, htake⟩ | ⟨hlive, e, htake⟩ := h.taken hissued
  · have hretire : DescriptorHeapAllocator.retireAtTimeline (frame.allocation s.scheduler.descriptors.id)
        frame.timelineValue s.scheduler.descriptors = .ok () {
          s.scheduler.descriptors with
          retired := s.scheduler.descriptors.retired ++ [(frame.timelineValue.toNat, frame.range)] } := by
      rw [DescriptorHeapAllocator.retireAtTimeline, if_neg (h.timeline frame hlive)]
      exact h.heap.surrenders (Books.allocation_mem hlive) _
    exact .inl ⟨hlive, state, _, hfind, hserial, hretire, FrameScheduler.commit_run htake hretire hlt⟩
  · exact .inr ⟨hlive, e, commit_stale htake⟩

theorem Books.abort_run (h : Books s) (hissued : frame ∈ s.issued) :
    (frame ∈ s.live ∧ ∃ state descriptors, s.scheduler.outputs.find frame.target.output = some state ∧
      DescriptorHeapAllocator.release (frame.allocation s.scheduler.descriptors.id) s.scheduler.descriptors =
        .ok () descriptors ∧
      abort frame s.scheduler = .ok () {
        s.scheduler with
        descriptors
        outputs := s.scheduler.outputs.insert frame.target.output { state with prepared := none } }) ∨
    (frame ∉ s.live ∧ ∃ e, abort frame s.scheduler = .error (.error e) s.scheduler) := by
  obtain ⟨hlive, state, hfind, -, -, htake⟩ | ⟨hlive, e, htake⟩ := h.taken hissued
  · have hrelease := h.heap.surrenders (Books.allocation_mem hlive) fun state range =>
      { state with free := normalizeFreeRanges (state.free ++ [range]) }
    exact .inl ⟨hlive, state, _, hfind, hrelease, FrameScheduler.abort_run htake hrelease⟩
  · exact .inr ⟨hlive, e, abort_stale htake⟩

theorem Books.insert_idle (h : Books s) (state : OutputFrameState Scene Overlay)
    (frames : List (FrameSubmission Scene Overlay Damage))
    (hidle : s.preparedOn output = none)
    (hbooks : OutputBooks { s with onTarget := Function.update s.onTarget output frames } output state) : Books {
      s with
      scheduler := { s.scheduler with outputs := s.scheduler.outputs.insert output state }
      onTarget := Function.update s.onTarget output frames } := by
  refine { h with outputs := ?_, gone := ?_, serial := ?_ }
  · intro other state' hfind
    rw [Map.find_insert] at hfind
    split at hfind
    · cases hfind
      subst other
      exact hbooks.congr rfl rfl rfl rfl (UInt64.le_refl _)
    · exact (h.outputs other state' hfind).congr rfl rfl rfl (Function.update_of_ne ‹_› _ _) (UInt64.le_refl _)
  · grind [Map.find_insert, h.gone]
  grind [h.serial, Map.find_insert, Session.preparedOn]

theorem Books.preparedOn_of_gone (h : Books s) (hfind : s.scheduler.outputs.find output = none) :
    s.preparedOn output = none := by
  grind [h.serial, Session.preparedOn]

theorem OutputBooks.preparedOn (h : OutputBooks s output state) (hprepared : state.prepared = none) :
    s.preparedOn output = none := by
  grind [h.prepared, Option.map_eq_none_iff]

variable {scheduler : FrameScheduler Scene Overlay}

theorem Books.registered (h : Books s) {target : NativeOutputTarget}
    (hr : registerOutput target s.scheduler = .ok () scheduler) (hnew : ¬s.targetIs target) :
    Books { s with scheduler, onTarget := Function.update s.onTarget target.output [] } := by
  obtain ⟨hfind, rfl⟩ | ⟨state, hfind, ⟨heq, -⟩ | ⟨-, hprepared, rfl⟩⟩ := registerOutput_ok hr
  · obtain ⟨hcommitted, -⟩ := h.gone target.output hfind
    have hidle := h.preparedOn_of_gone hfind
    refine h.insert_idle (.new target) [] hidle ⟨rfl, ?_, ?_, ?_, fun slot => ?_, ?_, ?_⟩
    · change none = (s.preparedOn target.output).map _
      rw [hidle, Option.map_none]
    · change 1 = (s.committed target.output).length + 1
      rw [hcommitted, length_nil]
    · grind
    · simp only [Function.update_self]
      rfl
    · grind
    grind
  · exact absurd ⟨state, hfind, heq⟩ hnew
  · have hbooks := h.outputs _ _ hfind
    refine h.insert_idle (state.setTarget target) [] (hbooks.preparedOn hprepared) { hbooks with target := rfl, slotHistory := fun slot => ?_ }
    simp only [Function.update_self]
    rfl

theorem Books.advanced (h : Books s) {answer : Option (Fin 3)}
    (ha : advanceOutputSlot output s.scheduler = .ok answer scheduler) : Books { s with scheduler } := by
  obtain ⟨-, rfl⟩ | ⟨state, hidle, rfl⟩ := advanceOutputSlot_run ha
  · exact h
  · obtain ⟨hfind, hidle⟩ := Option.filter_eq_some_iff.mp hidle
    simp only [Bool.and_eq_true, Option.isNone_iff_eq_none] at hidle
    have hbooks := h.outputs _ _ hfind
    have hinsert := h.insert_idle { state with nextSlot := state.nextSlot + 1 } (s.onTarget output)
      (hbooks.preparedOn hidle.1.2)
    rw [Function.update_eq_self] at hinsert
    exact hinsert { hbooks with }

theorem Books.erase (h : Books s)
    (hid : scheduler.descriptors.id = s.scheduler.descriptors.id)
    (hretired : scheduler.descriptors.retired = s.scheduler.descriptors.retired)
    (hheap : DescriptorHeapAllocator.Sound ⟨scheduler.descriptors,
      (s.live.filter fun frame => frame.target.output ≠ output).map (FrameSubmission.allocation scheduler.descriptors.id)⟩)
    (hfind : ∀ other, scheduler.outputs.find other = if other = output then none else s.scheduler.outputs.find other) :
    Books {
      s with
      scheduler
      live := s.live.filter fun frame => frame.target.output ≠ output
      committed := Function.update s.committed output []
      onTarget := Function.update s.onTarget output [] } := by
  have hsub : List.Sublist (s.live.filter fun frame => frame.target.output ≠ output) s.live := filter_sublist
  refine ⟨hheap, ?_, ?_, h.apart.sublist (hsub.map _), ?_, fun frame hframe => h.timeline frame (hsub.subset hframe), ?_,
    h.increasing, h.once.sublist ((((hsub.append_right _).append_right _)).map _), hretired ▸ h.retired, hretired ▸ h.waiting⟩
  · intro other state hother
    rw [hfind] at hother
    split at hother
    · cases hother
    · rename_i hne
      refine (h.outputs other state hother).congr hid ?_ (Function.update_of_ne hne _ _) (Function.update_of_ne hne _ _)
        (UInt64.le_refl _)
      -- The live frames of the other outputs are all still there.
      unfold Session.preparedOn
      rw [find?_filter]
      grind -linarith
  · grind [h.gone]
  · grind [h.serial]
  grind [h.issued]

theorem Books.unregistered (h : Books s)
    (hu : unregisterOutput output s.scheduler = .ok () scheduler) : Books {
      s with
      scheduler
      live := s.live.filter fun frame => frame.target.output ≠ output
      committed := Function.update s.committed output []
      onTarget := Function.update s.onTarget output [] } := by
  -- Where no frame is prepared the heap is not touched.
  have hidle : s.preparedOn output = none → s.live.filter (fun frame => frame.target.output ≠ output) = s.live := fun hnone =>
    filter_eq_self.mpr fun frame hframe => decide_eq_true (preparedOn_none.mp hnone frame hframe)
  cases hfind : s.scheduler.outputs.find output with
  | none =>
    rw [unregisterOutput_none hfind] at hu
    cases hu
    refine h.erase rfl rfl ?_ fun other => ?_
    · rw [hidle (h.preparedOn_of_gone hfind)]
      exact h.heap
    grind
  | some state =>
    have hbooks := h.outputs _ _ hfind
    cases hon : s.preparedOn output with
    | none =>
      have hprepared : state.prepared = none := by rw [hbooks.prepared, hon, Option.map_none]
      rw [unregisterOutput_idle hfind hprepared] at hu
      cases hu
      refine h.erase rfl rfl ?_ (Map.find_erase _ _)
      rw [hidle hon]
      exact h.heap
    | some frame =>
      obtain ⟨hlive, rfl⟩ := h.preparedOn_iff.mp hon
      have hprepared : state.prepared = some (frame.preparedState s.scheduler.descriptors.id) := by
        rw [hbooks.prepared, hon, Option.map_some]
      have hrelease := h.heap.surrenders (Books.allocation_mem hlive) fun state range =>
        { state with free := normalizeFreeRanges (state.free ++ [range]) }
      rw [unregisterOutput_prepared hfind hprepared hrelease] at hu
      cases hu
      refine h.erase rfl rfl ?_ (Map.find_erase _ _)
      have hperm := (perm_cons_filter h.apart hlive).map (FrameSubmission.allocation s.scheduler.descriptors.id)
      have herase := hperm.erase (frame.allocation s.scheduler.descriptors.id)
      rw [map_cons, erase_cons_head] at herase
      exact (h.heap.release (.inl (Books.allocation_mem hlive)) hrelease).perm herase

variable {completed : UInt64}

theorem reclaim_retired {count : Nat} {descriptors descriptors' : DescriptorHeapAllocatorState}
    (hr : DescriptorHeapAllocator.reclaim completed descriptors = .ok count descriptors') :
    descriptors'.id = descriptors.id ∧
      descriptors'.retired = descriptors.retired.filter fun entry => ¬entry.1 ≤ completed.toNat := by
  cases hr
  exact ⟨rfl, rfl⟩

theorem Books.reclaimed (h : Books s) {completed : UInt64} {count : Nat} {descriptors : DescriptorHeapAllocatorState}
    (hle : s.completed ≤ completed)
    (hr : DescriptorHeapAllocator.reclaim completed s.scheduler.descriptors = .ok count descriptors) :
    Books { s with scheduler := { s.scheduler with descriptors }, completed } := by
  obtain ⟨hid, hretired⟩ := reclaim_retired hr
  have hheap := h.heap.reclaim hr
  refine ⟨?_, fun output state hfind => (h.outputs output state hfind).congr hid rfl rfl rfl hle, h.gone, h.apart, h.serial,
    h.timeline, h.issued, h.increasing, h.once, ?_, ?_⟩
  · grind [Session.heap]
  · grind [h.retired]
  · intro frame hframe hlt
    simp only [hretired]
    exact mem_filter.mpr ⟨h.waiting frame hframe (UInt64.lt_of_le_of_lt hle hlt),
      decide_eq_true (Nat.not_le.mpr (UInt64.lt_iff_toNat_lt.mp hlt))⟩

theorem Books.raised (h : Books s) (hle : s.completed ≤ completed) : Books { s with completed } :=
  { h with
    outputs := fun output state hfind => (h.outputs output state hfind).congr rfl rfl rfl rfl hle
    waiting := fun frame hframe hlt => h.waiting frame hframe (UInt64.lt_of_le_of_lt hle hlt) }

/-- Outputs are no longer in flight once their last frame is on record as completed. -/
theorem Books.retireOutputs (h : Books s) : Books {
    s with
    scheduler := {
      s.scheduler with
      outputs := s.scheduler.outputs.mapValues fun _ state => OutputFrameState.retire s.completed state } } := by
  refine { h with outputs := ?_, gone := ?_, serial := ?_ }
  · intro output state' hfind
    rw [Map.find_mapValues] at hfind
    obtain ⟨state, hstate, rfl⟩ := Option.map_eq_some_iff.mp hfind
    have hbooks := h.outputs output state hstate
    unfold OutputFrameState.retire
    split
    · refine { hbooks with completed := fun _ last hlast => ?_ }
      grind [hbooks.lastSubmitted]
    · exact { hbooks with }
  · grind [Map.find_mapValues, Option.map_eq_none_iff, h.gone]
  grind -linarith [h.serial, OutputFrameState.retire, Map.find_mapValues]

variable {timeline : UInt64}

theorem Books.retireCompleted (h : Books s)
    (hle : s.completed ≤ timeline) (hr : retireCompleted timeline s.scheduler = .ok () scheduler) :
    Books { s with scheduler, completed := timeline } := by
  obtain ⟨count, descriptors, hreclaim⟩ := reclaim_run timeline s.scheduler.descriptors
  simp only [FrameScheduler.retireCompleted, bind_run, modify_run, onDescriptors, hreclaim] at hr
  cases hr
  exact (h.reclaimed hle hreclaim).retireOutputs

variable {scene : Scene} {overlays : List Overlay} {capture : Option Capture}

theorem Books.prepareFailed (h : Books s) {e : FrameError} (hle : s.completed ≤ completed)
    (hp : prepareWithCursorsForTimeline planner output scene overlays capture completed timeline s.scheduler =
      .error (.error e) scheduler) :
    Books { s with scheduler, completed } ∧ scheduler.outputs = s.scheduler.outputs := by
  have hsum : ∀ count reclaimed, DescriptorHeapAllocator.reclaim completed s.scheduler.descriptors = .ok count reclaimed →
      (reclaimed.free.map Ranges.Range.size).sum < 2 ^ 64 := fun count reclaimed hr => (h.heap.reclaim hr).sum_free_lt
  grind -linarith [prepare_error, h.raised, h.reclaimed]

/-- A frame with a timeline value of its own joins the live ones with the range it was given. -/
theorem Books.allocated (h : Books s) {size alignment : UInt64} {descriptors : DescriptorHeapAllocatorState}
    (hfind : s.scheduler.outputs.find frame.target.output = some state) (hprepared : state.prepared = none)
    (hnew : ∀ earlier ∈ s.issued, earlier.timelineValue < frame.timelineValue) (hne : frame.timelineValue ≠ 0)
    (hserial : frame.serial = state.nextSerial) (hlt : frame.serial + 1 < 2 ^ 64)
    (hallocate : DescriptorHeapAllocator.allocate size alignment s.scheduler.descriptors =
      .ok (frame.allocation s.scheduler.descriptors.id) descriptors) : Books {
      s with
      scheduler := {
        s.scheduler with
        descriptors
        outputs := s.scheduler.outputs.insert frame.target.output { state with
          prepared := some (frame.preparedState s.scheduler.descriptors.id) } }
      issued := frame :: s.issued
      live := frame :: s.live } := by
  have hsound := h.heap.allocate hallocate
  have hbooks := h.outputs _ _ hfind
  have hidle := preparedOn_none.mp (hbooks.preparedOn hprepared)
  obtain ⟨_, _, _, _, _, _, _, _, rfl⟩ := DescriptorHeapAllocator.allocate_ok hallocate
  refine ⟨hsound, ?_, ?_, ?_, ?_, ?_, ?_, ?_, ?_, h.retired, h.waiting⟩
  · intro output state' hstate
    rw [Map.find_insert] at hstate
    split at hstate
    · cases hstate
      subst output
      refine { hbooks with prepared := ?_ }
      grind [Session.preparedOn]
    · refine (h.outputs output state' hstate).congr rfl ?_ rfl rfl (UInt64.le_refl _)
      grind [Session.preparedOn]
  · grind [Map.find_insert, h.gone]
  · grind [h.apart]
  · grind -linarith [Map.find_insert, h.serial]
  · grind [h.timeline]
  · grind [h.issued]
  · grind [pairwise_cons, h.increasing]
  · change ((frame :: (s.live ++ s.submitted ++ s.aborted)).map _).Nodup
    rw [map_cons, nodup_cons]
    grind [h.once, h.issued]

theorem Books.prepared (h : Books s) (hle : s.completed ≤ completed)
    (hnew : ∀ earlier ∈ s.issued, earlier.timelineValue < timeline)
    (hp : prepareWithCursorsForTimeline planner output scene overlays capture completed timeline s.scheduler =
      .ok frame scheduler) :
    Books { s with scheduler, completed, issued := frame :: s.issued, live := frame :: s.live } ∧
      frame.target.output = output ∧ s.preparedOn output = none ∧
      ∀ last ∈ (s.committed output).head?, last.timelineValue ≤ completed := by
  obtain ⟨prep⟩ := prepare_ok hp
  have hbooks := h.outputs _ _ prep.found
  obtain rfl : frame.target.output = output := by rw [prep.frame_target, hbooks.target]
  have hreclaimed := h.reclaimed hle prep.reclaims
  have hnonempty : prep.allocation.range.Nonempty :=
    (hreclaimed.heap.allocate prep.allocates).nonempty _ (mem_append_right _ (mem_map_of_mem mem_cons_self))
  have hallocation : prep.allocation = frame.allocation prep.reclaimed.id := by
    obtain ⟨_, _, _, _, _, _, _, hallocation, _⟩ := DescriptorHeapAllocator.allocate_ok prep.allocates
    have hid : prep.allocation.allocatorId = prep.reclaimed.id := by rw [hallocation]
    have hstop : prep.allocation.range.start + prep.allocation.range.size = prep.allocation.range.stop :=
      Nat.add_sub_cancel' (Nat.le_of_lt hnonempty)
    unfold FrameSubmission.allocation FrameSubmission.range
    rw [prep.frame_descriptors, ← hid]
    simp only [hstop]
  refine ⟨?_, rfl, hbooks.preparedOn prep.unprepared, fun last hlast => ?_⟩
  · have hallocates := prep.allocates
    have hserial : frame.serial + 1 < 2 ^ 64 := by
      rw [prep.frame_serial]
      exact prep.serial_lt
    have hstate : (⟨timeline, prep.state.nextSerial, prep.state.nextSlot, frame.descriptors, prep.allocation⟩ :
        PreparedFrameState) = frame.preparedState prep.reclaimed.id := by
      unfold FrameSubmission.preparedState
      rw [prep.frame_timeline, prep.frame_serial, prep.frame_slot, hallocation]
    grind [prep.result, hreclaimed.allocated, prep.found, prep.unprepared, prep.frame_timeline, prep.timeline_ne,
        prep.frame_serial]
  grind +splitImp +splitIndPred [prep.completes]

theorem Books.without_perm (h : Books s) (hframe : frame ∈ s.live) : s.live.Perm (frame :: s.without frame) := by
  grind [h.once, perm_cons_filter, Session.without]

theorem Books.without_apart (h : Books s) (hframe : frame ∈ s.live)
    (hother : other ∈ s.without frame) : other ∈ s.live ∧ other.target.output ≠ frame.target.output := by
  have hapart := ((h.without_perm hframe).map fun frame => frame.target.output).nodup_iff.mp h.apart
  grind [Session.without]

theorem Books.find?_without (h : Books s) (hframe : frame ∈ s.live) (output : RenderOutputId) :
    (s.without frame).find? (fun other => other.target.output = output) =
      if frame.target.output = output then none else s.preparedOn output := by
  split
  · grind [h.without_apart]
  · have hnodup : ((s.without frame).map fun frame => frame.target.output).Nodup := h.apart.sublist (filter_sublist.map _)
    refine Option.ext fun other => ?_
    rw [find?_key hnodup, h.preparedOn_iff, (h.without_perm hframe).mem_iff, mem_cons]
    grind

variable {descriptors : DescriptorHeapAllocatorState}

theorem Books.ended (h : Books s) (hframe : frame ∈ s.live)
    {submitted aborted : List (FrameSubmission Scene Overlay Damage)}
    {committed onTarget : RenderOutputId → List (FrameSubmission Scene Overlay Damage)}
    (hended : (submitted ++ aborted).Perm (frame :: (s.submitted ++ s.aborted)))
    (hid : descriptors.id = s.scheduler.descriptors.id)
    (hheap : DescriptorHeapAllocator.Sound ⟨descriptors, s.heap.outstanding.erase (frame.allocation s.scheduler.descriptors.id)⟩)
    (hcommitted : ∀ output, frame.target.output ≠ output → committed output = s.committed output)
    (honTarget : ∀ output, frame.target.output ≠ output → onTarget output = s.onTarget output)
    (hbooks : OutputBooks { s with live := s.without frame, committed, onTarget } frame.target.output state)
    (hretired : ∀ entry ∈ descriptors.retired, ∃ frame ∈ submitted, entry = (frame.timelineValue.toNat, frame.range))
    (hwaiting : ∀ frame ∈ submitted, s.completed < frame.timelineValue →
      (frame.timelineValue.toNat, frame.range) ∈ descriptors.retired) : Books {
      s with
      scheduler := {
        s.scheduler with
        descriptors
        outputs := s.scheduler.outputs.insert frame.target.output state }
      live := s.without frame
      submitted
      aborted
      committed
      onTarget } := by
  have hall : (s.without frame ++ submitted ++ aborted).Perm (s.live ++ s.submitted ++ s.aborted) := by
    rw [append_assoc, append_assoc]
    refine (hended.append_left _).trans (perm_middle.trans ?_)
    exact (h.without_perm hframe).symm.append_right _
  refine ⟨?_, ?_, ?_, ?_, ?_, ?_, ?_, h.increasing, ?_, hretired, hwaiting⟩
  · have herase := ((h.without_perm hframe).map (FrameSubmission.allocation s.scheduler.descriptors.id)).erase
      (frame.allocation s.scheduler.descriptors.id)
    grind [hheap.perm, Session.heap]
  · intro output state' hfind
    rw [Map.find_insert] at hfind
    split at hfind
    · cases hfind
      subst output
      exact hbooks.congr hid rfl rfl rfl (UInt64.le_refl _)
    · rename_i hne
      refine (h.outputs output state' hfind).congr hid ?_ (hcommitted output (Ne.symm hne)) (honTarget output (Ne.symm hne))
        (UInt64.le_refl _)
      exact (h.find?_without hframe output).trans (if_neg (Ne.symm hne))
  · grind [Map.find_insert, h.gone]
  · exact h.apart.sublist (filter_sublist.map _)
  · grind [h.without_apart, h.serial, Map.find_insert]
  · exact fun other hother => h.timeline other (mem_of_mem_filter hother)
  · grind [h.issued]
  · exact (hall.map _).nodup_iff.mpr h.once

theorem Books.aborted (h : Books s) (hissued : frame ∈ s.issued) {scheduler : FrameScheduler Scene Overlay}
    (ha : abort frame s.scheduler = .ok () scheduler) :
    Books { s with scheduler, live := s.without frame, aborted := frame :: s.aborted } := by
  obtain ⟨hlive, state, descriptors, hfind, hrelease, hrun⟩ | ⟨-, e, hrun⟩ := h.abort_run hissued
  · rw [hrun] at ha
    cases ha
    have hsound := h.heap.release (.inl (Books.allocation_mem hlive)) hrelease
    obtain ⟨-, rfl⟩ := DescriptorHeapAllocator.surrender_ok hrelease
    have hbooks := h.outputs _ _ hfind
    refine h.ended hlive perm_middle rfl hsound (fun _ _ => rfl) (fun _ _ => rfl) ?_ h.retired h.waiting
    refine { hbooks with prepared := ?_ }
    unfold Session.preparedOn
    rw [h.find?_without hlive, if_pos rfl, Option.map_none]
  · rw [hrun] at ha
    cases ha

theorem Books.committed (h : Books s) (hissued : frame ∈ s.issued) {scheduler : FrameScheduler Scene Overlay}
    (hc : commit frame s.scheduler = .ok () scheduler) : Books {
      s with
      scheduler
      live := s.without frame
      submitted := frame :: s.submitted
      committed := Function.update s.committed frame.target.output (frame :: s.committed frame.target.output)
      onTarget := Function.update s.onTarget frame.target.output (frame :: s.onTarget frame.target.output) } := by
  obtain ⟨hlive, state, descriptors, hfind, hserial, hretire, hrun⟩ | ⟨-, e, hrun⟩ := h.commit_run hissued
  · rw [hrun] at hc
    cases hc
    have hsound := h.heap.retire (.inl (Books.allocation_mem hlive)) hretire
    obtain ⟨-, rfl⟩ := DescriptorHeapAllocator.retireAtTimeline_ok hretire
    have hbooks := h.outputs _ _ hfind
    refine h.ended hlive (.refl _) rfl hsound (fun output hne => Function.update_of_ne (Ne.symm hne) _ _)
      (fun output hne => Function.update_of_ne (Ne.symm hne) _ _) ⟨hbooks.target, ?_, ?_, ?_, ?_, ?_, ?_⟩ ?_ ?_
    · unfold Session.preparedOn
      rw [h.find?_without hlive, if_pos rfl, Option.map_none]
      rfl
    · grind [OutputFrameState.committed, FrameSubmission.preparedState, hbooks.nextSerial]
    · grind [hbooks.serials, range'_1_concat, hbooks.nextSerial]
    · simp only [OutputFrameState.committed, FrameSubmission.preparedState]
      grind [hbooks.slotHistory, lastIn]
    · intro last hlast
      simp only [Function.update_self, head?_cons, Option.mem_some_iff] at hlast
      subst hlast
      rfl
    · intro hflight
      cases hflight
    · intro entry hentry
      rcases mem_append.mp hentry with hentry | hentry
      · grind [h.retired]
      · exact ⟨frame, mem_cons_self, mem_singleton.mp hentry⟩
    · intro other hother hlt
      rcases mem_cons.mp hother with rfl | hother
      · exact mem_append_right _ (mem_singleton_self _)
      · exact mem_append_left _ (h.waiting other hother hlt)
  · rw [hrun] at hc
    cases hc

variable {event : Event Scene Overlay Capture Damage}

theorem Step.books (h : Books s) (hs : Step planner s event t) : Books t := by
  cases hs with
  | @registeredSame t target hr hsame =>
    obtain ⟨state, hfind, heq⟩ := hsame
    obtain ⟨hnone, -⟩ | ⟨state', hfind', ⟨-, rfl⟩ | ⟨hne, -⟩⟩ := registerOutput_ok hr
    · rw [hfind] at hnone
      cases hnone
    · exact h
    grind
  | registered hr hnew => exact h.registered hr hnew
  | registerFailed hr =>
    obtain rfl := registerOutput_error hr
    exact h
  | unregistered hu => exact h.unregistered hu
  | prepared hle hnew hp => exact (h.prepared hle hnew hp).1
  | prepareFailed hle hp => exact (h.prepareFailed hle hp).1
  | committed hissued hc => exact h.committed hissued hc
  | commitFailed hissued hc =>
    obtain ⟨-, _, _, -, -, -, hrun⟩ | ⟨-, e, hrun⟩ := h.commit_run hissued
    · rw [hrun] at hc
      cases hc
    · rw [hrun] at hc
      cases hc
      exact h
  | aborted hissued ha => exact h.aborted hissued ha
  | abortFailed hissued ha =>
    obtain ⟨-, _, _, -, -, hrun⟩ | ⟨-, e, hrun⟩ := h.abort_run hissued
    · rw [hrun] at ha
      cases ha
    · rw [hrun] at ha
      cases ha
      exact h
  | retired hle hr => exact h.retireCompleted hle hr
  | advanced ha => exact h.advanced ha
  | deviceLost hd =>
    cases hd
    exact { h with outputs := fun output state hfind => (h.outputs output state hfind).congr rfl rfl rfl rfl (UInt64.le_refl _) }

def OutputFrameState.unprepared (state : OutputFrameState Scene Overlay) : OutputFrameState Scene Overlay :=
  { state with prepared := none }

/-- What a single call owes its caller. -/
def Event.Honest (s t : Session Scene Overlay Damage) : Event Scene Overlay Capture Damage → Prop
  | .prepare output _ _ _ completed _ (.ok frame) => frame.target.output = output ∧ s.preparedOn output = none ∧
      ∀ last ∈ (s.committed output).head?, last.timelineValue ≤ completed
  | .prepare _ _ _ _ _ _ (.error _) => t.scheduler.outputs = s.scheduler.outputs
  | .commit frame result => result = .ok () ↔ s.preparedOn frame.target.output = some frame
  | .abort frame result => (result = .ok () ↔ s.preparedOn frame.target.output = some frame) ∧
      ∀ output, (t.scheduler.outputs.find output).map OutputFrameState.unprepared =
        (s.scheduler.outputs.find output).map OutputFrameState.unprepared
  | _ => True

theorem Step.honest (h : Books s) (hs : Step planner s event t) : event.Honest s t := by
  have hon : ∀ frame, s.preparedOn frame.target.output = some frame ↔ frame ∈ s.live := fun frame =>
    h.preparedOn_iff.trans (and_iff_left rfl)
  cases hs with
  | registeredSame | registered | registerFailed | unregistered | retired | advanced | deviceLost => trivial
  | prepared hle hnew hp => exact (h.prepared hle hnew hp).2
  | prepareFailed hle hp => exact (h.prepareFailed hle hp).2
  | @committed t frame hissued hc =>
    obtain ⟨hlive, -⟩ | ⟨-, e, hrun⟩ := h.commit_run hissued
    · exact iff_of_true rfl ((hon frame).mpr hlive)
    · rw [hrun] at hc
      cases hc
  | @commitFailed t frame e hissued hc => grind [h.commit_run, Event.Honest]
  | @aborted t frame hissued ha =>
    obtain ⟨hlive, state, descriptors, hfind, -, hrun⟩ | ⟨-, e, hrun⟩ := h.abort_run hissued
    · rw [hrun] at ha
      cases ha
      refine ⟨iff_of_true rfl ((hon frame).mpr hlive), fun output => ?_⟩
      rw [Map.find_insert]
      split
      · subst output
        rw [hfind]
        rfl
      · rfl
    · rw [hrun] at ha
      cases ha
  | @abortFailed t frame e hissued ha => grind [h.abort_run, Event.Honest]

theorem Books.start {heapSize minimumReservedRange alignment stride frameAlignment : UInt64} {counter counter' : Nat}
    (hheap : DescriptorHeapAllocator.new heapSize minimumReservedRange alignment counter = .ok descriptors counter')
    (hnew : withDescriptorAllocator descriptors stride frameAlignment = .ok scheduler) :
    Books (Session.start scheduler : Session Scene Overlay Damage) := by
  have hsound := DescriptorHeapAllocator.new_sound hheap
  have hretired := DescriptorHeapAllocator.new_retired hheap
  unfold withDescriptorAllocator at hnew
  split at hnew
  · cases hnew
  split at hnew
  · cases hnew
  split at hnew
  · cases hnew
  cases hnew
  refine ⟨hsound, fun output state hfind => ?_, fun _ _ => ⟨rfl, rfl⟩, .nil, ?_, ?_, ?_, .nil, .nil, ?_, ?_⟩
  · cases (Map.find_empty output).symm.trans hfind
  · intro frame hframe
    cases hframe
  · intro frame hframe
    cases hframe
  · intro frame hframe
    cases hframe
  · grind [Session.start]
  · intro frame hframe
    cases hframe

/-- The bookkeeping is right after every run. -/
theorem frames_scheduled {scheduler : FrameScheduler Scene Overlay} {descriptors : DescriptorHeapAllocatorState}
    {heapSize minimumReservedRange alignment stride frameAlignment : UInt64} {counter counter' : Nat}
    {events : List (Event Scene Overlay Capture Damage)}
    (hheap : DescriptorHeapAllocator.new heapSize minimumReservedRange alignment counter = .ok descriptors counter')
    (hnew : withDescriptorAllocator descriptors stride frameAlignment = .ok scheduler)
    (hrun : Run (Step planner) (Session.start scheduler) events s) :
    Books s ∧ DescriptorHeapAllocator.Partitioned s.heap ∧ ∀ event t, Step planner s event t → event.Honest s t := by
  have hbooks : Books s := hrun.invariant (Q := fun _ => True) (fun _ _ _ h _ hs => hs.books h) (.start hheap hnew) (by simp)
  exact ⟨hbooks, hbooks.heap.partitioned, fun event t hs => hs.honest hbooks⟩

end Books

section Restart

/-- Scenes and cursors as numbers, one image for each scene. -/
def plainPlanner : Planner Nat Nat Unit Unit where
  buildWithCursors _ _ cursors := .ok ⟨1, cursors⟩
  damage _ _ _ _ _ := ()
  captureExclusion _ _ _ _ _ := ()
  intermediateDescriptors _ _ _ := 0

def smallScreen : NativeOutputTarget := ⟨⟨1, 1⟩, ⟨0, 0, 64, 64⟩, ⟨1, 0, 1⟩, 1⟩

def smallScheduler : FrameScheduler Nat Nat := ⟨DescriptorHeapAllocator.smallHeap [⟨0, 960⟩] [], .empty, false, 16, 16⟩

def firstFrame (timeline : UInt64) (scene : Nat) : FrameSubmission Nat Nat Unit :=
  ⟨smallScreen, ⟨0, slots_pos⟩, 1, timeline, scene, (), (), ⟨0, 32⟩, 1, [7]⟩

def restartEvents : List (Event Nat Nat Unit Unit) :=
  [.registerOutput smallScreen (.ok ()), .prepare smallScreen.output 5 [7] none 0 1 (.ok (firstFrame 1 5)),
    .commit (firstFrame 1 5) (.ok ()), .retireCompleted 1, .unregisterOutput smallScreen.output,
    .registerOutput smallScreen (.ok ()), .prepare smallScreen.output 6 [7] none 1 2 (.ok (firstFrame 2 6)),
    .commit (firstFrame 2 6) (.ok ())]

theorem restart_run : ∃ s, Run (Step plainPlanner) (.start smallScheduler) restartEvents s ∧
    s.submitted = [firstFrame 2 6, firstFrame 1 5] := by
  refine ⟨_, .cons (.registered rfl ?_) <| .cons (.prepared (by decide) (by simp [Session.start]) rfl) <|
    .cons (.committed (by simp) rfl) <| .cons (.retired (by decide) rfl) <| .cons (.unregistered rfl) <|
    .cons (.registered rfl ?_) <| .cons (.prepared (by decide) (by simp [Session.start, firstFrame]) rfl) <|
    .cons (.committed (by simp) rfl) <| .nil _, rfl⟩
  · rintro ⟨state, hfind, -⟩
    cases hfind
  · rintro ⟨state, hfind, -⟩
    cases hfind

theorem frames_scheduled_restart : ∃ s, Run (Step plainPlanner) (.start smallScheduler) restartEvents s ∧ Books s ∧
    s.submitted.length = 2 := by
  obtain ⟨s, hrun, hsubmitted⟩ := restart_run
  have hheap : DescriptorHeapAllocator.new 1024 60 16 1 = .ok (DescriptorHeapAllocator.smallHeap [⟨0, 960⟩] []) 2 := rfl
  have hnew : withDescriptorAllocator (DescriptorHeapAllocator.smallHeap [⟨0, 960⟩] []) 16 16 = .ok smallScheduler := rfl
  exact ⟨s, hrun, (frames_scheduled hheap hnew hrun).1, by rw [hsubmitted]; rfl⟩

/-- The serial of an output starts again when the output comes back. -/
theorem serial_starts_again : ¬∀ s : Session Nat Nat Unit, Run (Step plainPlanner) (.start smallScheduler) restartEvents s →
    ∀ output, ((s.submitted.filter fun frame => frame.target.output = output).map FrameSubmission.serial).IsChain
      fun later earlier => later = earlier + 1 := by
  intro hserials
  obtain ⟨s, hrun, hsubmitted⟩ := restart_run
  have hchain := hserials s hrun smallScreen.output
  rw [hsubmitted] at hchain
  exact absurd hchain (by decide)

end Restart

end FrameScheduler

end TensorDE.Wm
