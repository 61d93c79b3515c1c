import TensorDE.Renderer.DescriptorHeapRuns
import TensorDE.Wm.FrameScheduler

set_option linter.dupNamespace false

namespace TensorDE.Wm

open Effect Maps Renderer

variable {Scene Overlay Capture Damage α : Type}

namespace FrameScheduler

/-! What each call does. -/

section Calls

variable {s t : FrameScheduler Scene Overlay} {wrap : DescriptorHeapError → FrameError} {e : FrameError} {a : α}
  {call : Op DescriptorHeapAllocatorState DescriptorHeapError α}

theorem onDescriptors_ok : onDescriptors wrap call s = .ok a t ↔
    ∃ descriptors, call s.descriptors = .ok a descriptors ∧ t = { s with descriptors } := by
  grind [onDescriptors]

theorem onDescriptors_error (h : onDescriptors wrap call s = .error (.error e) t) :
    ∃ e' descriptors, call s.descriptors = .error (.error e') descriptors ∧ t = { s with descriptors } := by
  grind [onDescriptors]

variable {σ ε : Type} {o : Option α}

theorem okOr_eq_ok {e : ε} {s t : σ} : (okOr o e : Op σ ε α) s = .ok a t ↔ o = some a ∧ t = s := by
  cases o with
  | none =>
    constructor
    · intro h
      cases h
    · rintro ⟨h, -⟩
      cases h
  | some b =>
    constructor
    · intro h
      cases h
      exact ⟨rfl, rfl⟩
    · rintro ⟨h, rfl⟩
      cases h
      rfl

theorem okOr_eq_error {e e' : ε} {s t : σ} (h : (okOr o e : Op σ ε α) s = .error (.error e') t) : o = none ∧ t = s := by
  cases o with
  | none =>
    cases h
    exact ⟨rfl, rfl⟩
  | some b => cases h

theorem reclaim_run (completed : UInt64) (state : DescriptorHeapAllocatorState) :
    ∃ count state', DescriptorHeapAllocator.reclaim completed state = .ok count state' := ⟨_, _, rfl⟩

variable {target : NativeOutputTarget}

theorem registerOutput_ok (h : registerOutput target s = .ok () t) :
    (s.outputs.find target.output = none ∧ t = { s with outputs := s.outputs.insert target.output (.new target) }) ∨
    ∃ state, s.outputs.find target.output = some state ∧ ((state.target = target ∧ t = s) ∨
      (state.target ≠ target ∧ state.prepared = none ∧
        t = { s with outputs := s.outputs.insert target.output (state.setTarget target) })) := by
  unfold registerOutput at h
  split at h
  · cases h
  split at h
  · cases h
  split at h
  · cases h
  rw [bind_run, get_run] at h
  cases hfind : s.outputs.find target.output with
  | none =>
    simp only [hfind] at h
    cases h
    exact .inl ⟨rfl, rfl⟩
  | some state =>
    simp only [hfind] at h
    split at h
    · cases h
      grind
    · cases hprepared : state.prepared with
      | some prepared =>
        simp only [hprepared] at h
        cases h
      | none =>
        simp only [hprepared] at h
        cases h
        grind

theorem registerOutput_error (h : registerOutput target s = .error (.error e) t) : t = s := by
  unfold registerOutput at h
  split at h
  · cases h
    rfl
  split at h
  · cases h
    rfl
  split at h
  · cases h
    rfl
  rw [bind_run, get_run] at h
  cases hfind : s.outputs.find target.output with
  | none =>
    simp only [hfind] at h
    cases h
  | some state =>
    simp only [hfind] at h
    split at h
    · cases h
    · cases hprepared : state.prepared with
      | some prepared =>
        simp only [hprepared] at h
        cases h
        rfl
      | none =>
        simp only [hprepared] at h
        cases h

variable {output : RenderOutputId}

theorem unregisterOutput_none (h : s.outputs.find output = none) : unregisterOutput output s = .ok () s := by
  rw [unregisterOutput, bind_run, get_run]
  simp only [h]
  rfl

variable {state : OutputFrameState Scene Overlay}

theorem unregisterOutput_idle (h : s.outputs.find output = some state) (hprepared : state.prepared = none) :
    unregisterOutput output s = .ok () { s with outputs := s.outputs.erase output } := by
  rw [unregisterOutput, bind_run, get_run]
  simp only [h, hprepared]
  rfl

variable {prepared : PreparedFrameState} {descriptors : DescriptorHeapAllocatorState}

theorem unregisterOutput_prepared (h : s.outputs.find output = some state) (hprepared : state.prepared = some prepared)
    (hrelease : DescriptorHeapAllocator.release prepared.allocation s.descriptors = .ok () descriptors) :
    unregisterOutput output s = .ok () { s with descriptors, outputs := s.outputs.erase output } := by
  rw [unregisterOutput, bind_run, get_run]
  simp only [h, hprepared, bind_run, set_run, ignoreError, onDescriptors, hrelease]

theorem advanceOutputSlot_run {answer : Option (Fin 3)} (h : advanceOutputSlot output s = .ok answer t) :
    (s.idleOutput output = none ∧ t = s) ∨ ∃ state, s.idleOutput output = some state ∧
      t = { s with outputs := s.outputs.insert output { state with nextSlot := state.nextSlot + 1 } } := by
  rw [advanceOutputSlot, bind_run, get_run] at h
  cases hidle : s.idleOutput output with
  | none =>
    simp only [hidle] at h
    cases h
    exact .inl ⟨rfl, rfl⟩
  | some state =>
    simp only [hidle] at h
    cases h
    exact .inr ⟨state, rfl, rfl⟩

/-- Taken is what is prepared; anything else leaves the scheduler as it was. -/
theorem takePrepared_run (s : FrameScheduler Scene Overlay) (frame : FrameSubmission Scene Overlay Damage) :
    (∃ held prepared, s.outputs.find frame.target.output = some held ∧ held.prepared = some prepared ∧
      prepared.isFor frame = true ∧ takePrepared frame s = .ok ({ held with prepared := none }, prepared)
        { s with outputs := s.outputs.insert frame.target.output { held with prepared := none } }) ∨
    ((∀ held prepared, s.outputs.find frame.target.output = some held → held.prepared = some prepared →
      prepared.isFor frame = false) ∧ ∃ e, takePrepared frame s = .error (.error e) s) := by
  rw [takePrepared, bind_run, get_run]
  simp only
  cases hfind : s.outputs.find frame.target.output with
  | none => exact .inr ⟨fun _ _ h => (by cases h), _, rfl⟩
  | some held =>
    rw [okOr_some, bind_run, pure_run]
    simp only
    cases hprepared : held.prepared with
    | none =>
      refine .inr ⟨fun held' prepared heq hsome => ?_, .stalePreparedFrame frame.target.output frame.timelineValue, ?_⟩
      · grind
      · simp only [fail_run]
    | some prepared =>
      by_cases hfor : prepared.isFor frame = true
      · refine .inl ⟨held, prepared, rfl, hprepared, hfor, ?_⟩
        simp only [if_pos hfor]
        rfl
      grind [fail_run]

theorem slots_pos : 0 < 3 := by decide

theorem one_lt_slots : 1 < 3 := by decide

/-- What a commit leaves behind of an output. -/
def OutputFrameState.committed (state : OutputFrameState Scene Overlay) (prepared : PreparedFrameState)
    (frame : FrameSubmission Scene Overlay Damage) : OutputFrameState Scene Overlay where
  target := state.target
  previousScene := some frame.scene
  previousCursors := frame.cursors
  slotHistory := Function.update state.slotHistory prepared.outputSlot ⟨some frame.scene, frame.cursors⟩
  nextSerial := prepared.serial + 1
  lastSubmittedTimeline := prepared.timelineValue
  inFlight := true
  nextSlot := prepared.outputSlot + ⟨1, one_lt_slots⟩
  prepared := none

variable {frame : FrameSubmission Scene Overlay Damage}

theorem commit_run (htake : takePrepared frame s = .ok ({ state with prepared := none }, prepared)
      { s with outputs := s.outputs.insert frame.target.output { state with prepared := none } })
    (hretire : DescriptorHeapAllocator.retireAtTimeline prepared.allocation prepared.timelineValue s.descriptors =
      .ok () descriptors)
    (hserial : prepared.serial + 1 < 2 ^ 64) :
    commit frame s = .ok () {
      s with
      descriptors
      outputs := s.outputs.insert frame.target.output (OutputFrameState.committed state prepared frame) } := by
  have hadd : checkedAdd prepared.serial 1 = some (prepared.serial + 1) := if_pos hserial
  simp only [commit, bind_run, get_run, htake, onDescriptors, hretire, hadd, okOr_some, pure_run, setOutput, modify_run,
    Map.insert_insert]
  rfl

theorem commit_stale (htake : takePrepared frame s = .error (.error e) s) : commit frame s = .error (.error e) s := by
  simp only [commit, bind_run, get_run, htake]

theorem abort_run (htake : takePrepared frame s = .ok ({ state with prepared := none }, prepared)
      { s with outputs := s.outputs.insert frame.target.output { state with prepared := none } })
    (hrelease : DescriptorHeapAllocator.release prepared.allocation s.descriptors = .ok () descriptors) :
    abort frame s = .ok () {
      s with
      descriptors
      outputs := s.outputs.insert frame.target.output { state with prepared := none } } := by
  simp only [abort, bind_run, get_run, htake, onDescriptors, hrelease]

theorem abort_stale (htake : takePrepared frame s = .error (.error e) s) : abort frame s = .error (.error e) s := by
  simp only [abort, bind_run, get_run, htake]

structure Preparation (s t : FrameScheduler Scene Overlay) (output : RenderOutputId) (completed timeline : UInt64)
    (frame : FrameSubmission Scene Overlay Damage) where
  state : OutputFrameState Scene Overlay
  count : Nat
  reclaimed : DescriptorHeapAllocatorState
  bytes : Nat
  allocation : DescriptorAllocation
  descriptors : DescriptorHeapAllocatorState
  found : s.outputs.find output = some state
  timeline_ne : timeline ≠ 0
  alive : s.deviceLost = false
  unprepared : state.prepared = none
  completes : state.inFlight = true → state.lastSubmittedTimeline ≤ completed
  reclaims : DescriptorHeapAllocator.reclaim completed s.descriptors = .ok count reclaimed
  serial_lt : state.nextSerial + 1 < 2 ^ 64
  allocates : DescriptorHeapAllocator.allocate (UInt64.ofNat bytes) s.descriptorAlignment reclaimed =
    .ok allocation descriptors
  frame_target : frame.target = state.target
  frame_slot : frame.outputSlot = state.nextSlot
  frame_serial : frame.serial = state.nextSerial
  frame_timeline : frame.timelineValue = timeline
  frame_descriptors : frame.descriptors = ⟨allocation.range.start, allocation.range.size⟩
  result : t = {
    s with
    descriptors
    outputs := s.outputs.insert output { state with
      prepared := some ⟨timeline, state.nextSerial, state.nextSlot, frame.descriptors, allocation⟩ } }

variable {planner : Planner Scene Overlay Capture Damage} {scene : Scene} {overlays : List Overlay} {capture : Option Capture} {completed timeline : UInt64}

theorem prepare_ok (h : prepareWithCursorsForTimeline planner output scene overlays capture completed timeline s = .ok frame t) :
    Nonempty (Preparation s t output completed timeline frame) := by
  unfold prepareWithCursorsForTimeline at h
  split at h
  · cases h
  rename_i htimeline
  rw [bind_run, get_run] at h
  simp only at h
  split at h
  · cases h
  rename_i halive
  obtain ⟨state, u, hfind, h⟩ := bind_eq_ok.mp h
  obtain ⟨hfind, rfl⟩ := okOr_eq_ok.mp hfind
  cases hprepared : state.prepared with
  | some prepared =>
    simp only [hprepared] at h
    cases h
  | none =>
    simp only [hprepared] at h
    split at h
    · cases h
    rename_i hready
    obtain ⟨count, u, hreclaim, h⟩ := bind_eq_ok.mp h
    obtain ⟨reclaimed, hreclaims, rfl⟩ := onDescriptors_ok.mp hreclaim
    obtain ⟨next, u, hnext, h⟩ := bind_eq_ok.mp h
    obtain ⟨hnext, rfl⟩ := okOr_eq_ok.mp hnext
    cases hplan : planner.buildWithCursors scene state.target overlays with
    | error e =>
      rw [hplan] at h
      cases h
    | ok drawPlan =>
      rw [hplan] at h
      simp only at h
      split at h
      · cases h
      obtain ⟨bytes, u, hbytes, h⟩ := bind_eq_ok.mp h
      obtain ⟨-, rfl⟩ := okOr_eq_ok.mp hbytes
      obtain ⟨allocation, u, hallocate, h⟩ := bind_eq_ok.mp h
      obtain ⟨descriptors, hallocates, rfl⟩ := onDescriptors_ok.mp hallocate
      cases h
      refine ⟨{
        state, count, reclaimed, bytes, allocation, descriptors
        found := hfind
        timeline_ne := htimeline
        alive := Bool.eq_false_iff.mpr halive
        unprepared := hprepared
        completes := fun hflight => UInt64.not_lt.mp fun hlt => hready ⟨hflight, hlt⟩
        reclaims := hreclaims
        serial_lt := ?_
        allocates := hallocates
        frame_target := rfl
        frame_slot := rfl
        frame_serial := rfl
        frame_timeline := rfl
        frame_descriptors := rfl
        result := rfl }⟩
      grind [checkedAdd]

/-- A frame that cannot be prepared leaves every output as it was. -/
theorem prepare_error (hsum : ∀ count reclaimed, DescriptorHeapAllocator.reclaim completed s.descriptors = .ok count reclaimed →
      (reclaimed.free.map Ranges.Range.size).sum < 2 ^ 64)
    (h : prepareWithCursorsForTimeline planner output scene overlays capture completed timeline s = .error (.error e) t) :
    t = s ∨ ∃ count reclaimed, DescriptorHeapAllocator.reclaim completed s.descriptors = .ok count reclaimed ∧
      t = { s with descriptors := reclaimed } := by
  unfold prepareWithCursorsForTimeline at h
  split at h
  · cases h
    exact .inl rfl
  rw [bind_run, get_run] at h
  simp only at h
  split at h
  · cases h
    exact .inl rfl
  obtain hfind | ⟨state, u, hfind, h⟩ := bind_eq_error.mp h
  · exact .inl (okOr_eq_error hfind).2
  obtain ⟨-, rfl⟩ := okOr_eq_ok.mp hfind
  cases hprepared : state.prepared with
  | some prepared =>
    simp only [hprepared] at h
    cases h
    exact .inl rfl
  | none =>
    simp only [hprepared] at h
    split at h
    · cases h
      exact .inl rfl
    obtain hreclaim | ⟨count, u, hreclaim, h⟩ := bind_eq_error.mp h
    · obtain ⟨e', descriptors, hreclaim, -⟩ := onDescriptors_error hreclaim
      obtain ⟨count, reclaimed, hreturns⟩ := reclaim_run completed _
      rw [hreturns] at hreclaim
      cases hreclaim
    obtain ⟨reclaimed, hreclaims, rfl⟩ := onDescriptors_ok.mp hreclaim
    refine .inr ⟨count, reclaimed, hreclaims, ?_⟩
    obtain hnext | ⟨next, u, hnext, h⟩ := bind_eq_error.mp h
    · exact (okOr_eq_error hnext).2
    obtain ⟨-, rfl⟩ := okOr_eq_ok.mp hnext
    cases hplan : planner.buildWithCursors scene state.target overlays with
    | error e =>
      rw [hplan] at h
      cases h
      rfl
    | ok drawPlan =>
      rw [hplan] at h
      simp only at h
      split at h
      · cases h
        rfl
      obtain hbytes | ⟨bytes, u, hbytes, h⟩ := bind_eq_error.mp h
      · exact (okOr_eq_error hbytes).2
      obtain ⟨-, rfl⟩ := okOr_eq_ok.mp hbytes
      obtain hallocate | ⟨allocation, u, hallocate, h⟩ := bind_eq_error.mp h
      · grind [onDescriptors_error, DescriptorHeapAllocator.allocate_error]
      · cases h

end Calls

end FrameScheduler

end TensorDE.Wm
