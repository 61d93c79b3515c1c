import TensorDE.Lib.Patch
import TensorDE.Lib.Trace
import TensorDE.Renderer.Presentation

set_option linter.dupNamespace false

namespace TensorDE.Renderer

open Effect Patch Trace List

def Happening.steps : Happening → List PresentationTransactionStep
  | .submitted step _ _ => [step]
  | .acquiring _ _ _ => []
  | .acquired _ => [.acquireSurface]
  | .recorded step => [step]
  | .presented _ => [.present]

def stepsOf (happened : List Happening) : List PresentationTransactionStep := happened.flatMap Happening.steps

theorem stepsOf_snoc (happened : List Happening) (happening : Happening) :
    stepsOf (happened ++ [happening]) = stepsOf happened ++ happening.steps := by
  simp [stepsOf]

variable (call : FrameCall)

def FrameCall.Resolves (plan : PresentationPathPlan) (owner : Nat) : Prop :=
  ∃ waits, call.dependencies.decodedSubmissionParts (plan.surfaceScope call.dependencies) owner = .ok waits

/-- A live handle names one swapchain: the one that the transaction was made for has as many images as then. -/
def FrameCall.Genuine (transaction : PresentationTransaction) : Prop :=
  call.swapchain.owner = transaction.owner → call.swapchain.raw = transaction.swapchain →
    call.swapchain.images = transaction.imageStates.length

namespace Rig

def lastSubmission (s : Rig) (slot : Nat) : Option Nat :=
  s.transaction.frameSlots[slot]?.bind (·.lastSubmission)

/-- What a call with a slot may have done since the state `s`: its happenings are `more`. -/
structure Since (slot : Nat) (s t : Rig) (more : List Happening) : Prop where
  plan : t.transaction.plan = s.transaction.plan
  owner : t.transaction.owner = s.transaction.owner
  swapchain : t.transaction.swapchain = s.transaction.swapchain
  presentSignals : t.transaction.presentSignals = s.transaction.presentSignals
  images : t.transaction.imageStates.length = s.transaction.imageStates.length
  semaphores : t.transaction.frameSlots.map (·.acquire) = s.transaction.frameSlots.map (·.acquire)
  happened : t.happened = s.happened ++ more
  timeline : s.nextTimeline ≤ t.nextTimeline
  completed : s.completed ≤ t.completed
  last : ∀ k, t.lastSubmission k = s.lastSubmission k ∨
    k = slot ∧ ∃ v, t.lastSubmission k = some v ∧ s.nextTimeline ≤ v ∧ v < t.nextTimeline
  submitted : ∀ step k v, .submitted step k v ∈ more →
    k = slot ∧ v < t.nextTimeline ∧ ∃ last, t.lastSubmission k = some last ∧ v ≤ last
  acquiring : ∀ k semaphore c, .acquiring k semaphore c ∈ more →
    k = slot ∧ (s.transaction.frameSlots.map (·.acquire))[k]? = some semaphore ∧ s.completed ≤ c

variable {slot : Nat} {s t : Rig} {more : List Happening}

section Since

theorem Since.refl (s : Rig) : Since slot s s [] where
  plan := rfl
  owner := rfl
  swapchain := rfl
  presentSignals := rfl
  images := rfl
  semaphores := rfl
  happened := (append_nil _).symm
  timeline := le_rfl
  completed := le_rfl
  last _ := .inl rfl
  submitted _ _ _ h := by cases h
  acquiring _ _ _ h := by cases h

section

variable (h : Since slot s t more)
include h

theorem Since.phase (phase : PresentationTransactionPhase) :
    Since slot s { t with transaction := { t.transaction with phase } } more := { h with }

theorem Since.allocate : Since slot s { t with nextTimeline := t.nextTimeline + 1 } more :=
  { h with
    timeline := h.timeline.trans (Nat.le_succ _)
    last := by
      intro k
      obtain hsame | ⟨hk, v, hv, hle, hlt⟩ := h.last k
      · exact .inl hsame
      · exact .inr ⟨hk, v, hv, hle, Nat.lt_succ_of_lt hlt⟩
    submitted := by
      intro step k v hmem
      obtain ⟨hk, hlt, hlast⟩ := h.submitted step k v hmem
      exact ⟨hk, Nat.lt_succ_of_lt hlt, hlast⟩ }

theorem Since.sync {sync : FrameSlotSync} (hs : s.transaction.frameSlots[slot]? = some sync) :
    ∃ sync', t.transaction.frameSlots[slot]? = some sync' ∧ sync'.acquire = sync.acquire := by
  have hsame := congrArg (fun list => list[slot]?) h.semaphores
  grind

theorem Since.note {happening : Happening} (hsubmitted : ∀ step k v, happening ≠ .submitted step k v)
    (hacquiring : ∀ k semaphore c, happening = .acquiring k semaphore c →
      k = slot ∧ (s.transaction.frameSlots.map (·.acquire))[k]? = some semaphore ∧ s.completed ≤ c) :
    Since slot s { t with happened := t.happened ++ [happening] } (more ++ [happening]) :=
  { h with
    happened := by
      rw [h.happened, append_assoc]
    submitted := fun step k v hmem => by
      obtain hmem | hmem := mem_append.mp hmem
      · exact h.submitted step k v hmem
      grind
    acquiring := fun k semaphore c hmem => by
      grind [h.acquiring] }

end

def recorded (t : Rig) (step : PresentationTransactionStep) (slot : Nat) (sync : FrameSlotSync) : Rig :=
  { t with
    nextTimeline := t.nextTimeline + 1
    happened := t.happened ++ [.submitted step slot t.nextTimeline]
    transaction := { t.transaction with
      frameSlots := t.transaction.frameSlots.set slot { sync with lastSubmission := some t.nextTimeline } } }

theorem lastSubmission_recorded {step : PresentationTransactionStep} {sync : FrameSlotSync}
    (hsync : t.transaction.frameSlots[slot]? = some sync) (k : Nat) :
    (t.recorded step slot sync).lastSubmission k = if k = slot then some t.nextTimeline else t.lastSubmission k := by
  grind [lastSubmission, recorded]

theorem Since.recorded (h : Since slot s t more) (step : PresentationTransactionStep) {sync : FrameSlotSync}
    (hsync : t.transaction.frameSlots[slot]? = some sync) :
    Since slot s (t.recorded step slot sync) (more ++ [.submitted step slot t.nextTimeline]) where
  plan := h.plan
  owner := h.owner
  swapchain := h.swapchain
  presentSignals := h.presentSignals
  images := h.images
  semaphores := by
    refine Eq.trans ?_ h.semaphores
    apply map_set_same hsync
    rfl
  happened := by
    rw [Rig.recorded, h.happened, append_assoc]
  timeline := h.timeline.trans (Nat.le_succ _)
  completed := h.completed
  last k := by
    grind [lastSubmission_recorded, h.timeline, h.last, recorded]
  submitted step' k v hmem := by
    rw [lastSubmission_recorded hsync]
    obtain hmem | hmem := mem_append.mp hmem
    · obtain ⟨rfl, hlt, -⟩ := h.submitted step' k v hmem
      exact ⟨rfl, Nat.lt_succ_of_lt hlt, _, if_pos rfl, hlt.le⟩
    grind [recorded]
  acquiring k semaphore c hmem := by
    grind +splitImp +splitIndPred

end Since

section Queue

variable {α : Type} {P : α → Rig → Prop} {Q : Error → Rig → Prop}

theorem answer_returns {operation : String} {a : Except Int α} (hok : ∀ v, a = .ok v → P v t)
    (herror : ∀ source, a = .error source → Q (.vulkan operation source) t) : Returns P Q (answer operation a t) := by
  cases a with
  | ok v => exact hok v rfl
  | error source => exact herror source rfl

theorem outcome_returns {a : Except Error α} (hok : ∀ v, a = .ok v → P v t) (herror : ∀ e, a = .error e → Q e t) :
    Returns P Q (outcome a t) := by
  cases a with
  | ok v => exact hok v rfl
  | error e => exact herror e rfl

theorem orPoison_returns {x : Op Rig Error α} (h : Returns P
    (fun e u => Q e { u with transaction := { u.transaction with phase := .poisoned } }) (x t)) :
    Returns P Q (orPoison x t) := by
  unfold orPoison
  cases hx : x t with
  | ok a u => exact h.of_ok hx
  | error e u =>
    rw [hx] at h
    cases e with
    | error e => exact h
    | panic | diverge => exact h.elim

theorem submit_returns (commands : List CommandBuffer) (signals : List BinarySemaphore)
    (submits : Except Int Unit) (hsame : ∀ e, Q e t) (htaken : ∀ e, Q e { t with nextTimeline := t.nextTimeline + 1 }) :
    Returns (fun frame u => frame = t.nextTimeline ∧ u = { t with nextTimeline := t.nextTimeline + 1 }) Q
      (submit commands signals submits t) := by
  refine .step (get_run t) ?_
  refine Returns.ite (fun _ => .fail (hsame _)) fun _ => ?_
  refine Returns.ite (fun _ => .fail (hsame _)) fun _ => ?_
  refine Returns.bind (P := fun frame u => frame = t.nextTimeline ∧ u = { t with nextTimeline := t.nextTimeline + 1 }) ?_
    fun frame u h => ?_
  · refine .step (get_run t) ?_
    unfold checkedAdd
    split
    · exact ⟨rfl, rfl⟩
    · exact hsame _
  · obtain ⟨rfl, rfl⟩ := h
    exact Returns.bind (P := fun _ u => u = { t with nextTimeline := t.nextTimeline + 1 })
      (answer_returns (fun _ _ => rfl) fun _ _ => htaken _) fun _ _ h => ⟨rfl, h⟩

theorem recordSubmission_run {frame : Nat} {sync : FrameSlotSync} (h : t.transaction.frameSlots[slot]? = some sync) :
    recordSubmission slot frame t = .ok () { t with
      transaction := { t.transaction with
        frameSlots := t.transaction.frameSlots.set slot { sync with lastSubmission := some frame } } } := by
  unfold recordSubmission
  simp only [bind_run, get_run, h, expect_some, pure_run, set_run]

end Queue

section Start

/-- The call may go on: the slot is there, and what was recorded for it before is complete. -/
structure Started (call : FrameCall) (s t : Rig) : Prop where
  same : t = { s with completed := t.completed, transaction := { s.transaction with phase := .ready } }
  completed : s.completed ≤ t.completed
  sound : s.transaction.phase ≠ .poisoned
  swapchain : call.swapchain.owner = s.transaction.owner ∧ call.swapchain.raw = s.transaction.swapchain
  sync : ∃ sync, s.transaction.frameSlots[call.frameSlot]? = some sync
  last : ∀ v, s.lastSubmission call.frameSlot = some v → v ≤ t.completed

theorem validateFrameStart_returns (call : FrameCall) (s : Rig) :
    Returns (fun _ t => Started call s t)
      (fun e t => t = { s with completed := t.completed } ∧ (s.transaction.phase = .poisoned → t = s ∧
        e = .validation "presentation transaction is poisoned; recreate it with the swapchain"))
      (validateFrameStart call s) := by
  refine .step (get_run s) ?_
  dsimp only
  split
  · exact ⟨rfl, fun _ => ⟨rfl, rfl⟩⟩
  rename_i hsound
  split
  · exact ⟨rfl, fun h => absurd h hsound⟩
  rename_i hswapchain
  cases hsync : s.transaction.frameSlots[call.frameSlot]? with
  | none => exact ⟨rfl, fun h => absurd h hsound⟩
  | some sync =>
    have hswapchain : call.swapchain.owner = s.transaction.owner ∧ call.swapchain.raw = s.transaction.swapchain := by
      simpa using hswapchain
    have hstarted (completed : Nat) (hle : s.completed ≤ completed)
        (hlast : ∀ v, sync.lastSubmission = some v → v ≤ completed) :
        Started call s { s with completed, transaction := { s.transaction with phase := .ready } } := by
      refine ⟨rfl, hle, hsound, hswapchain, ⟨sync, hsync⟩, fun v hv => hlast v ?_⟩
      rwa [lastSubmission, hsync] at hv
    refine .step (pure_run sync s) ?_
    cases hlast : sync.lastSubmission with
    | none => exact hstarted s.completed le_rfl fun v hv => absurd (hlast.symm.trans hv) (by simp)
    | some last =>
      refine Returns.bind (P := fun completed t => t = { s with completed } ∧ s.completed ≤ completed) ?_ ?_
      · refine Returns.bind (P := fun progress t => t = s) (answer_returns (fun _ _ => rfl) fun _ _ => ?_)
          fun progress t ht => ?_
        · exact ⟨rfl, fun h => absurd h hsound⟩
        · obtain rfl := ht
          exact ⟨rfl, Nat.le_add_right _ _⟩
      · rintro completed t ⟨rfl, hle⟩
        split
        · refine Returns.bind (P := fun _ t => ∃ completed, last ≤ completed ∧ s.completed ≤ completed ∧
            t = { s with completed }) ?_ ?_
          · refine Returns.bind (P := fun progress t => t = { s with completed })
              (answer_returns (fun _ _ => rfl) fun _ _ => ?_) fun progress t ht => ?_
            · exact ⟨rfl, fun h => absurd h hsound⟩
            · obtain rfl := ht
              exact ⟨_, le_max_right _ _, (hle.trans (Nat.le_add_right _ _)).trans (le_max_left _ _), rfl⟩
          · rintro _ t ⟨reached, hlastle, hle, rfl⟩
            exact hstarted reached hle fun v hv => Option.some.inj (hlast.symm.trans hv) ▸ hlastle
        · rename_i hreached
          exact hstarted completed hle fun v hv => Option.some.inj (hlast.symm.trans hv) ▸ Nat.le_of_not_lt hreached

end Start

section Frame

variable {call : FrameCall} {steps : List PresentationTransactionStep}

/-- The steps that a call has done since `s`. -/
def Done (call : FrameCall) (s : Rig) (steps : List PresentationTransactionStep) (t : Rig) : Prop :=
  ∃ more, Since call.frameSlot s t more ∧ stepsOf more = steps

/-- How a call fails: behind an acquire the transaction is poisoned, as long as the decoded frames are in order. -/
def Failed (call : FrameCall) (s : Rig) (_ : Error) (t : Rig) : Prop :=
  ∃ more, Since call.frameSlot s t more ∧ (.acquireSurface ∈ stepsOf more →
    call.Resolves s.transaction.plan s.transaction.owner → t.transaction.phase = .poisoned)

theorem Done.failed (h : Done call s steps t) (hsteps : .acquireSurface ∉ steps) (e : Error) : Failed call s e t := by
  obtain ⟨more, hsince, rfl⟩ := h
  exact ⟨more, hsince, fun hmem => absurd hmem hsteps⟩

section

variable (h : Done call s steps t)
include h

theorem Done.phase (phase : PresentationTransactionPhase) :
    Done call s steps { t with transaction := { t.transaction with phase } } := by
  obtain ⟨more, hsince, hsteps⟩ := h
  exact ⟨more, hsince.phase phase, hsteps⟩

theorem Done.poisoned (e : Error) :
    Failed call s e { t with transaction := { t.transaction with phase := .poisoned } } := by
  obtain ⟨more, hsince, -⟩ := h
  exact ⟨more, hsince.phase .poisoned, fun _ _ => rfl⟩

theorem Done.allocate : Done call s steps { t with nextTimeline := t.nextTimeline + 1 } := by
  obtain ⟨more, hsince, hsteps⟩ := h
  exact ⟨more, hsince.allocate, hsteps⟩

theorem Done.note {happening : Happening} (hsubmitted : ∀ step k v, happening ≠ .submitted step k v)
    (hacquiring : ∀ k semaphore c, happening ≠ .acquiring k semaphore c) :
    Done call s (steps ++ happening.steps) { t with happened := t.happened ++ [happening] } := by
  obtain ⟨more, hsince, rfl⟩ := h
  refine ⟨_, hsince.note hsubmitted fun k semaphore c heq => absurd heq (hacquiring k semaphore c), stepsOf_snoc _ _⟩

theorem Done.submit {sync : FrameSlotSync}
    (hs : s.transaction.frameSlots[call.frameSlot]? = some sync) (step : PresentationTransactionStep)
    (phase : PresentationTransactionPhase) {α : Type} (a : α) :
    Returns (fun a' u => a' = a ∧ Done call s (steps ++ [step]) u) (Failed call s) ((do
        Rig.note (.submitted step call.frameSlot t.nextTimeline)
        recordSubmission call.frameSlot t.nextTimeline
        setPhase phase
        return a : Op Rig Error α) { t with nextTimeline := t.nextTimeline + 1 }) := by
  obtain ⟨more, hsince, rfl⟩ := h
  obtain ⟨sync', hsync', -⟩ := hsince.sync hs
  refine .step (modify_run _ _) ?_
  refine .step (recordSubmission_run hsync') ?_
  refine .step (modify_run _ _) ?_
  exact ⟨rfl, _, (hsince.recorded step hsync').phase phase, stepsOf_snoc _ _⟩

end

variable {sync : FrameSlotSync} (hs : s.transaction.frameSlots[call.frameSlot]? = some sync)
include hs

theorem submitOffscreen_returns (h : Done call s [] t) (commands : List CommandBuffer) :
    Returns (fun _ u => Done call s
        (if s.transaction.plan.acquire = .afterOffscreenSubmit then [.submitOffscreen] else []) u) (Failed call s)
      (submitOffscreen call commands t) := by
  have hplan : t.transaction.plan = s.transaction.plan := h.elim fun _ h => h.1.plan
  refine .step (get_run t) ?_
  rw [hplan]
  by_cases hlate : s.transaction.plan.acquire = .afterOffscreenSubmit
  · simp only [if_pos hlate]
    refine Returns.bind (P := fun _ u => u = t) (outcome_returns (fun _ _ => rfl) fun e _ => h.failed (by simp) e) ?_
    rintro - u rfl
    refine Returns.bind (submit_returns commands [] call.offscreenSubmit (h.failed (by simp))
      (h.allocate.failed (by simp))) ?_
    rintro frame u ⟨rfl, rfl⟩
    exact (h.submit hs .submitOffscreen .offscreenSubmitted (some u.nextTimeline)).mono (fun _ _ h => h.2) fun _ _ h => h
  · simp only [if_neg hlate]
    exact h

theorem acquireSurface_returns (h : Done call s steps t) (hsteps : .acquireSurface ∉ steps) :
    Returns (fun image u => image.1 < call.swapchain.images ∧ Done call s (steps ++ [.acquireSurface]) u) (Failed call s)
      (acquireSurface call t) := by
  obtain ⟨more, hsince, rfl⟩ := h
  obtain ⟨sync', hsync', hsame⟩ := hsince.sync hs
  have hasked : Since call.frameSlot s
      { t with happened := t.happened ++ [.acquiring call.frameSlot sync'.acquire t.completed] }
      (more ++ [.acquiring call.frameSlot sync'.acquire t.completed]) := by
    refine hsince.note (by simp) fun k semaphore c heq => ?_
    obtain ⟨rfl, rfl, rfl⟩ := Happening.acquiring.inj heq
    exact ⟨rfl, by rw [getElem?_map, hs, hsame]; rfl, hsince.completed⟩
  have hdone : Done call s (stepsOf more)
      { t with happened := t.happened ++ [.acquiring call.frameSlot sync'.acquire t.completed] } :=
    ⟨_, hasked, by simp [stepsOf_snoc, Happening.steps]⟩
  refine .step (get_run t) ?_
  rw [hsync', expect_some]
  refine .step (pure_run sync' t) ?_
  refine .step (modify_run _ _) ?_
  refine Returns.bind (P := fun image u => image.1 < call.swapchain.images ∧ u =
    { t with happened := t.happened ++ [.acquiring call.frameSlot sync'.acquire t.completed] }) ?_ ?_
  · refine Returns.ite (fun _ => .fail (hdone.failed hsteps _)) fun _ => ?_
    refine Returns.bind (P := fun _ u => u =
      { t with happened := t.happened ++ [.acquiring call.frameSlot sync'.acquire t.completed] })
      (answer_returns (fun _ _ => rfl) fun _ _ => hdone.failed hsteps _) ?_
    rintro ⟨index, status⟩ u rfl
    exact Returns.ite (fun hindex => ⟨hindex, rfl⟩) fun _ => .fail (hdone.failed hsteps _)
  · rintro ⟨index, status⟩ u ⟨hindex, rfl⟩
    refine .step (modify_run _ _) ?_
    refine .step (modify_run _ _) ?_
    exact ⟨hindex, (hdone.note (by simp) (by simp)).phase .surfaceAcquired⟩

omit hs

variable {index : Nat}

theorem recordSurfaceCommands_returns (h : Done call s steps t) (hindex : index < s.transaction.imageStates.length) :
    Returns (fun _ u => Done call s (steps ++ [s.transaction.plan.recordStep]) u) (Failed call s)
      (recordSurfaceCommands call index t) := by
  have hsince : ∃ more, Since call.frameSlot s t more := h.imp fun _ h => h.1
  obtain ⟨more, hsince⟩ := hsince
  refine .step (get_run t) ?_
  rw [getElem?_eq_getElem (hsince.images ▸ hindex), expect_some, hsince.plan]
  refine .step (pure_run _ t) ?_
  refine Returns.bind (P := fun _ u => u = t) (orPoison_returns (outcome_returns (fun _ _ => rfl) fun e _ => h.poisoned e)) ?_
  rintro - u rfl
  refine Returns.bind (P := fun _ v => v = u) (orPoison_returns (outcome_returns (fun _ _ => rfl) fun e _ => h.poisoned e)) ?_
  rintro - v rfl
  refine Returns.bind (P := fun _ w => w = v) (orPoison_returns (answer_returns (fun _ _ => rfl) fun _ _ => h.poisoned _)) ?_
  rintro - w rfl
  refine .step (modify_run _ _) ?_
  refine .step (modify_run _ _) ?_
  exact (h.note (by simp) (by simp)).phase .surfaceRecorded

include hs

theorem submitSurface_returns (h : Done call s steps t) (hindex : index < s.transaction.presentSignals.length)
    (commands : List CommandBuffer) (surfaceCommands : CommandBuffer) :
    Returns (fun _ u => Done call s (steps ++ [s.transaction.plan.submitStep]) u) (Failed call s)
      (submitSurface call commands surfaceCommands index t) := by
  have hsince : ∃ more, Since call.frameSlot s t more := h.imp fun _ h => h.1
  obtain ⟨more, hsince⟩ := hsince
  obtain ⟨sync', hsync', -⟩ := hsince.sync hs
  refine .step (get_run t) ?_
  rw [hsync', expect_some, hsince.presentSignals, getElem?_eq_getElem hindex, expect_some, hsince.plan,
    hsince.owner]
  refine .step (pure_run _ t) ?_
  refine .step (show outcome (sync'.acquire.wait colorAttachmentOutput) t = .ok ⟨sync'.acquire.raw, 0⟩ t from rfl) ?_
  refine .step (pure_run _ t) ?_
  refine Returns.bind (P := fun _ u => u = t) (outcome_returns (fun _ _ => rfl) fun e he => ?_) ?_
  · refine ⟨more, hsince, fun _ hresolves => ?_⟩
    obtain ⟨waits, hwaits⟩ := hresolves
    cases he.symm.trans hwaits
  rintro - u rfl
  refine Returns.bind (orPoison_returns (submit_returns _ _ _ h.poisoned h.allocate.poisoned)) ?_
  rintro frame v ⟨rfl, rfl⟩
  exact (h.submit hs s.transaction.plan.submitStep .surfaceSubmitted u.nextTimeline).mono (fun _ _ h => h.2) fun _ _ h => h

omit hs

theorem presentSurface_returns (h : Done call s steps t) (hindex : index < s.transaction.presentSignals.length) :
    Returns (fun _ u => Done call s (steps ++ [.present]) u ∧ u.transaction.phase = .presented) (Failed call s)
      (presentSurface call index t) := by
  have hsince : ∃ more, Since call.frameSlot s t more := h.imp fun _ h => h.1
  obtain ⟨more, hsince⟩ := hsince
  refine .step (get_run t) ?_
  rw [hsince.presentSignals, getElem?_eq_getElem hindex, expect_some]
  refine .step (pure_run _ t) ?_
  refine Returns.bind (P := fun _ u => u = t) (orPoison_returns ?_) ?_
  · refine .step (get_run t) ?_
    refine Returns.ite (fun _ => .fail (h.poisoned _)) fun _ => ?_
    refine Returns.ite (fun _ => .fail (h.poisoned _)) fun _ => ?_
    refine Returns.ite (fun _ => .fail (h.poisoned _)) fun _ => ?_
    exact answer_returns (fun _ _ => rfl) fun _ _ => h.poisoned _
  rintro status u rfl
  refine .step (modify_run _ _) ?_
  refine .step (modify_run _ _) ?_
  refine .step (modify_run _ _) ?_
  have hnote : Done _ _ _ { u with happened := u.happened ++ [.presented index] } :=
    h.note (by simp) (by simp)
  obtain ⟨more', hsince', hsteps'⟩ := hnote
  exact ⟨⟨more', { hsince'.phase .presented with images := by simpa using hsince'.images }, hsteps'⟩, rfl⟩

variable {Q : Error → Rig → Prop}

theorem validateIndependentCommands_returns (commands : List CommandBuffer)
    (hsame : ∀ e, Q e t) : Returns (fun _ u => t = u) Q (validateIndependentCommands commands t) := by
  refine .step (get_run t) ?_
  refine Returns.ite (fun _ => .fail (hsame _)) fun _ => ?_
  cases t.transaction.plan.target with
  | directSurface => exact Returns.ite (fun _ => .pure rfl) fun _ => .fail (hsame _)
  | offscreen => exact Returns.ite (fun _ => .fail (hsame _)) fun _ => .pure rfl

theorem validateDependencies_returns (dependencies : PresentationFrameDependencies)
    (hsame : ∀ e, Q e t) : Returns (fun _ u => t = u) Q (validateDependencies dependencies t) := by
  refine .step (get_run t) ?_
  exact Returns.ite (fun _ => .fail (hsame _)) fun _ => .pure rfl

theorem schedule_eq (plan : PresentationPathPlan) :
    (if plan.acquire = .afterOffscreenSubmit then [.submitOffscreen] else []) ++ [.acquireSurface] ++ [plan.recordStep] ++
      [plan.submitStep] ++ [.present] = plan.schedule := by
  grind [PresentationPathPlan.schedule, PresentationPathPlan.recordStep, PresentationPathPlan.submitStep,
      plan.offscreen_of_late]

/-- How a call ends: with every step of its schedule, refused by a poisoned transaction, before it started, or on the
way. -/
theorem executeFrame_returns (call : FrameCall) (s : Rig) (hgenuine : call.Genuine s.transaction)
    (hformed : s.transaction.presentSignals.length = s.transaction.imageStates.length) :
    Returns (fun _ t => ∃ u, Started call s u ∧ Done call u s.transaction.plan.schedule t)
      (fun e t => (s.transaction.phase = .poisoned ∧ t = s ∧
          e = .validation "presentation transaction is poisoned; recreate it with the swapchain") ∨
        (s.transaction.phase ≠ .poisoned ∧ t = { s with completed := t.completed }) ∨
        ∃ u, Started call s u ∧ Failed call u e t)
      (executeFrame call s) := by
  refine Returns.bind (P := fun _ u => Started call s u) ((validateFrameStart_returns call s).mono (fun _ _ h => h) ?_) ?_
  · grind
  rintro - u hu
  refine Returns.mono (P := fun _ t => Done call u s.transaction.plan.schedule t) (Q := Failed call u) ?_
    (fun _ t h => ⟨u, hu, h⟩) fun e t h => .inr (.inr ⟨u, hu, h⟩)
  have hstart : Done call u [] u := ⟨[], .refl u, rfl⟩
  have hsame : u.transaction = { s.transaction with phase := .ready } := congrArg Rig.transaction hu.same
  obtain ⟨sync, hsync⟩ : ∃ sync, u.transaction.frameSlots[call.frameSlot]? = some sync := by
    rw [hsame]
    exact hu.sync
  have himages : call.swapchain.images = u.transaction.imageStates.length := by
    rw [hsame]
    exact hgenuine hu.swapchain.1 hu.swapchain.2
  have hsignals : call.swapchain.images = u.transaction.presentSignals.length := by
    rw [himages, hsame]
    exact hformed.symm
  have hplan : u.transaction.plan = s.transaction.plan := by rw [hsame]
  refine Returns.bind (P := fun _ t => u = t) (outcome_returns (fun _ _ => rfl) fun e _ => hstart.failed (by simp) e) ?_
  rintro commands t rfl
  refine (validateIndependentCommands_returns commands (hstart.failed (by simp))).bind ?_
  rintro - t rfl
  refine (validateDependencies_returns call.dependencies (hstart.failed (by simp))).bind ?_
  rintro - t rfl
  refine (submitOffscreen_returns hsync hstart commands).bind fun offscreenSubmission t ht => ?_
  have hahead : PresentationTransactionStep.acquireSurface ∉
      if u.transaction.plan.acquire = .afterOffscreenSubmit then [.submitOffscreen] else [] := by
    split <;> simp
  refine (acquireSurface_returns hsync ht hahead).bind ?_
  rintro ⟨index, status⟩ t ⟨hindex, ht⟩
  refine (recordSurfaceCommands_returns ht (himages ▸ hindex)).bind fun surfaceCommands t ht => ?_
  refine (submitSurface_returns hsync ht (hsignals ▸ hindex) commands surfaceCommands).bind fun frame t ht => ?_
  refine (presentSurface_returns ht (hsignals ▸ hindex)).bind fun presentStatus t ht => ?_
  rw [← hplan, ← schedule_eq]
  exact ht.1

end Frame

end Rig

namespace Presentation

structure Record where
  call : FrameCall
  result : Except Error PresentTransactionOutcome
  happened : List Happening

/-- A transaction in use, with the calls so far. -/
structure Session where
  rig : Rig
  history : List Record

inductive Action where
  | frame (call : FrameCall)
  | progress (values : Nat)
  | submitElsewhere (values : Nat)

variable {plan : PresentationPathPlan} {swapchain : Swapchain} {s t : Session} {record : Record}

/-- The device may have been in use before. -/
def Session.new (plan : PresentationPathPlan) (swapchain : Swapchain) (nextTimeline completed : Nat) : Session :=
  ⟨⟨.create plan swapchain, nextTimeline, completed, []⟩, []⟩

/-- The result of a call that came back. -/
def resultOf : EStateM.Result (Fault Error) Rig PresentTransactionOutcome →
    Option (Except Error PresentTransactionOutcome × Rig)
  | .ok outcome rig => some (.ok outcome, rig)
  | .error (.error e) rig => some (.error e, rig)
  | .error _ _ => none

/-- The calls, the work of the device, and submissions of others to the queue. -/
def Step (s : Session) : Action → Session → Prop
  | .frame call, t => call.Genuine s.rig.transaction ∧ ∃ result rig,
      resultOf (Rig.executeFrame call s.rig) = some (result, rig) ∧
        t = ⟨{ rig with happened := [] }, s.history ++ [⟨call, result, rig.happened⟩]⟩
  | .progress values, t => s.rig.completed + values < s.rig.nextTimeline ∧
      t = { s with rig := { s.rig with completed := s.rig.completed + values } }
  | .submitElsewhere values, t => t = { s with rig := { s.rig with nextTimeline := s.rig.nextTimeline + values } }

/-- A call that failed with an image in its hands, for another reason than its decoded frames. -/
def Record.Broken (plan : PresentationPathPlan) (owner : Nat) (record : Record) : Prop :=
  .acquireSurface ∈ stepsOf record.happened ∧ (∃ e, record.result = .error e) ∧ record.call.Resolves plan owner

/-- A call that was turned away: it neither submitted nor acquired. -/
def Record.Refused (record : Record) : Prop :=
  record.result = .error (.validation "presentation transaction is poisoned; recreate it with the swapchain") ∧
    record.happened = []

/-- An acquire for a slot comes behind the end of what the earlier call submitted for it. -/
def Record.Behind (earlier later : Record) : Prop :=
  ∀ slot semaphore completed step value, .acquiring slot semaphore completed ∈ later.happened →
    .submitted step slot value ∈ earlier.happened → value ≤ completed

structure Inv (plan : PresentationPathPlan) (swapchain : Swapchain) (s : Session) : Prop where
  samePlan : s.rig.transaction.plan = plan
  sameOwner : s.rig.transaction.owner = swapchain.owner
  formed : s.rig.transaction.presentSignals.length = s.rig.transaction.imageStates.length
  semaphores : s.rig.transaction.frameSlots.map (·.acquire) = (List.range plan.frameSlots).map (⟨swapchain.owner, ·⟩)
  idle : s.rig.happened = []
  submitted : ∀ record ∈ s.history, ∀ step slot value, .submitted step slot value ∈ record.happened →
    value < s.rig.nextTimeline ∧ ∃ last, s.rig.lastSubmission slot = some last ∧ value ≤ last
  acquired : ∀ record ∈ s.history, ∀ slot semaphore completed, .acquiring slot semaphore completed ∈ record.happened →
    slot = record.call.frameSlot ∧ semaphore = ⟨swapchain.owner, slot⟩
  scheduled : ∀ record ∈ s.history, (∃ outcome, record.result = .ok outcome) → stepsOf record.happened = plan.schedule
  poisoned : ∀ record ∈ s.history, record.Broken plan swapchain.owner → s.rig.transaction.phase = .poisoned
  refused : s.history.Pairwise fun earlier later => earlier.Broken plan swapchain.owner → later.Refused
  behind : s.history.Pairwise Record.Behind

theorem inv_new (nextTimeline completed : Nat) : Inv plan swapchain (.new plan swapchain nextTimeline completed) where
  samePlan := rfl
  sameOwner := rfl
  formed := by simp [Session.new, PresentationTransaction.create]
  semaphores := by simp [Session.new, PresentationTransaction.create]
  idle := rfl
  submitted _ h := by cases h
  acquired _ h := by cases h
  scheduled _ h := by cases h
  poisoned _ h := by cases h
  refused := .nil
  behind := .nil

section Step

variable {history : List Record}

theorem forall_mem_snoc {P : Record → Prop} (h : ∀ record ∈ history, P record) (hnew : P record) :
    ∀ r ∈ history ++ [record], P r := by
  grind

theorem pairwise_snoc {R : Record → Record → Prop} (h : history.Pairwise R)
    (hnew : ∀ earlier ∈ history, R earlier record) : (history ++ [record]).Pairwise R := by
  grind

section

variable (h : Inv plan swapchain s)
include h

theorem Inv.turnedAway (call : FrameCall) {completed : Nat} {e : Error}
    (hrefused : s.rig.transaction.phase = .poisoned →
      e = .validation "presentation transaction is poisoned; recreate it with the swapchain") :
    Inv plan swapchain ⟨{ s.rig with completed, happened := [] }, s.history ++ [⟨call, .error e, []⟩]⟩ where
  samePlan := h.samePlan
  sameOwner := h.sameOwner
  formed := h.formed
  semaphores := h.semaphores
  idle := rfl
  submitted := forall_mem_snoc h.submitted fun _ _ _ hmem => by cases hmem
  acquired := forall_mem_snoc h.acquired fun _ _ _ hmem => by cases hmem
  scheduled := forall_mem_snoc h.scheduled fun hok => by cases hok.choose_spec
  poisoned := forall_mem_snoc h.poisoned fun hbroken => by cases hbroken.1
  refused := pairwise_snoc h.refused fun earlier he hbroken =>
    ⟨congrArg Except.error (hrefused (h.poisoned earlier he hbroken)), rfl⟩
  behind := pairwise_snoc h.behind fun _ _ _ _ _ _ _ hmem => by cases hmem

theorem Inv.underWay {call : FrameCall} {u rig : Rig} (hu : Rig.Started call s.rig u)
    {more : List Happening} (hsince : Rig.Since call.frameSlot u rig more)
    {result : Except Error PresentTransactionOutcome}
    (hok : (∃ outcome, result = .ok outcome) → stepsOf more = plan.schedule)
    (hbroken : .acquireSurface ∈ stepsOf more → (∃ e, result = .error e) → call.Resolves plan swapchain.owner →
      rig.transaction.phase = .poisoned) :
    Inv plan swapchain ⟨{ rig with happened := [] }, s.history ++ [⟨call, result, rig.happened⟩]⟩ := by
  have hsame : u.transaction = { s.rig.transaction with phase := .ready } := congrArg Rig.transaction hu.same
  have hnext : u.nextTimeline = s.rig.nextTimeline := by rw [hu.same]
  have hlast (slot : Nat) : u.lastSubmission slot = s.rig.lastSubmission slot := by
    rw [Rig.lastSubmission, hsame]
    rfl
  have hhappened : rig.happened = more := by
    rw [hsince.happened, hu.same, h.idle, nil_append]
  have hsemaphores : u.transaction.frameSlots.map (·.acquire) = (range plan.frameSlots).map (⟨swapchain.owner, ·⟩) := by
    rw [hsame]
    exact h.semaphores
  -- nothing was broken before, or the call would not have started
  have hsound (record : Record) (hr : record ∈ s.history) : ¬record.Broken plan swapchain.owner :=
    fun hbroken => hu.sound (h.poisoned record hr hbroken)
  rw [hhappened]
  refine
    { samePlan := by rw [hsince.plan, hsame]; exact h.samePlan
      sameOwner := by rw [hsince.owner, hsame]; exact h.sameOwner
      formed := by rw [hsince.presentSignals, hsince.images, hsame]; exact h.formed
      semaphores := hsince.semaphores.trans hsemaphores
      idle := rfl
      submitted := forall_mem_snoc (fun record hr step slot value hmem => ?_) fun step slot value hmem =>
        (hsince.submitted step slot value hmem).2
      acquired := forall_mem_snoc h.acquired fun slot semaphore completed hmem => ?_
      scheduled := forall_mem_snoc h.scheduled hok
      poisoned := forall_mem_snoc (fun record hr hbroken => absurd hbroken (hsound record hr)) fun hnew =>
        hbroken hnew.1 hnew.2.1 hnew.2.2
      refused := pairwise_snoc h.refused fun earlier he hbroken => absurd hbroken (hsound earlier he)
      behind := pairwise_snoc h.behind fun earlier he slot semaphore completed step value hacquiring hsubmitted => ?_ }
  · obtain ⟨hlt, last, hold, hle⟩ := h.submitted record hr step slot value hmem
    have hgrown : s.rig.nextTimeline ≤ rig.nextTimeline := hnext ▸ hsince.timeline
    refine ⟨hlt.trans_le hgrown, ?_⟩
    obtain hkept | ⟨-, v, hv, hnew, -⟩ := hsince.last slot
    · exact ⟨last, hkept.trans ((hlast slot).trans hold), hle⟩
    · exact ⟨v, hv, hlt.le.trans (hnext ▸ hnew)⟩
  · obtain ⟨rfl, hsemaphore, -⟩ := hsince.acquiring slot semaphore completed hmem
    grind
  · obtain ⟨rfl, -, hcompleted⟩ := hsince.acquiring slot semaphore completed hacquiring
    obtain ⟨-, last, hold, hle⟩ := h.submitted earlier he step _ value hsubmitted
    exact (hle.trans (hu.last last hold)).trans hcompleted

theorem Inv.step {action : Action} (hstep : Step s action t) : Inv plan swapchain t := by
  cases action with
  | frame call =>
    obtain ⟨hgenuine, result, rig, hresult, rfl⟩ := hstep
    obtain ⟨outcome, rig', hrun, u, hu, more, hsince, hsteps⟩ | ⟨e, rig', hrun, hcase⟩ :=
      (Rig.executeFrame_returns call s.rig hgenuine h.formed).cases
    · rw [hrun] at hresult
      obtain ⟨rfl, rfl⟩ := Prod.mk.inj (Option.some.inj hresult)
      grind [h.underWay, h.samePlan]
    · rw [hrun] at hresult
      obtain ⟨rfl, rfl⟩ := Prod.mk.inj (Option.some.inj hresult)
      obtain ⟨-, rfl, rfl⟩ | ⟨hsound, hsame⟩ | ⟨u, hu, more, hsince, hpoisoned⟩ := hcase
      · grind [h.idle, h.turnedAway]
      · grind [h.idle, h.turnedAway]
      grind [hu.same, h.underWay, h.samePlan.symm, h.sameOwner.symm, stepsOf]
  | progress values =>
    obtain ⟨-, rfl⟩ := hstep
    exact { h with }
  | submitElsewhere values =>
    obtain rfl := hstep
    refine { h with submitted := fun record hr step slot value hmem => ?_ }
    obtain ⟨hlt, hlast⟩ := h.submitted record hr step slot value hmem
    exact ⟨hlt.trans_le (Nat.le_add_right _ _), hlast⟩

end

end Step

theorem inv_run {nextTimeline completed : Nat} {actions : List Action}
    (hrun : Run Step (.new plan swapchain nextTimeline completed) actions s) : Inv plan swapchain s :=
  hrun.invariant (Q := fun _ => True) (fun _ _ _ h _ hstep => h.step hstep) (inv_new nextTimeline completed)
    fun _ _ => trivial

theorem resultOf_returns {P : PresentTransactionOutcome → Rig → Prop} {Q : Error → Rig → Prop}
    {r : EStateM.Result (Fault Error) Rig PresentTransactionOutcome} (h : Returns P Q r) :
    ∃ result rig, resultOf r = some (result, rig) := by
  cases r with
  | ok outcome rig => exact ⟨_, _, rfl⟩
  | error e rig =>
    cases e with
    | error e => exact ⟨_, _, rfl⟩
    | panic | diverge => exact h.elim

section Sample

def directPlan : PresentationPathPlan := ⟨.directSurface, .beforeFrame, 1, by decide⟩

def latePlan : PresentationPathPlan := ⟨.offscreen, .afterOffscreenSubmit, 1, by decide⟩

def oneImage : Swapchain := ⟨0, 0, 1⟩

def smoothCall (commands : List CommandBuffer) : FrameCall where
  swapchain := oneImage
  frameSlot := 0
  dependencies := ⟨[], .surfaceCommands⟩
  counterValue := .ok 0
  semaphoreWait := .ok 0
  recordIndependent := .ok commands
  offscreenSubmit := .ok ()
  nextImage := .ok (0, .optimal)
  surfaceEncoder := .ok ()
  recordSurface := .ok ()
  endCommandBuffer := .ok ()
  surfaceSubmit := .ok ()
  queuePresent := .ok .optimal

def lostCall : FrameCall := { smoothCall [] with queuePresent := .error (-1000000000) }

end Sample

end Presentation

end TensorDE.Renderer
