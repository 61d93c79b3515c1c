import TensorDE.Protocol.SelectionRuns
import TensorDE.Protocol.DragSound

set_option linter.dupNamespace false

namespace TensorDE.Protocol.Selection

open TensorDE.Maps TensorDE.Trace

variable {C W : Type}

/-- What reaches the drags: the compositor's part of them, the requests of the two clients, and what happens to the
resources. `selection` has the requests that do not bear on a drag. -/
inductive DndEvent (C W : Type) where
  | selection (e : Event C W)
  | startCoreDnd (client : C) (source : SourceToken) (origin : W)
  | startLocalDnd (origin : W)
  | dndMotion (target : Option (Entered W))
  | dropDnd
  | cancelDnd
  | disconnect (source : SourceToken)
  | sourceDestroyed (source : SourceToken)
  | surfaceDestroyed (surface : W)
  | accept (offer : OfferId) (mimeType : Option String)
  | receive (offer : OfferId) (mimeType : String)
  | finish (offer : OfferId)
  | setActions (offer : OfferId) (actions preferred : Option DndAction)
  | offerDestroyed (offer : OfferId)

/-- The requests of the selection that leave drags and resources alone. -/
def Event.apart : Event C W → Bool
  | .beginCoreDnd .. | .beginLocalDnd .. | .dndMotion .. | .endDnd | .disconnect .. | .sourceDestroyed .. => false
  | _ => true

def DndEvent.offer : DndEvent C W → Option OfferId
  | .accept id _ | .receive id _ | .finish id | .setActions id _ _ | .offerDestroyed id => some id
  | _ => none

namespace SelectionProtocol

variable {p : SelectionProtocol C W} {origin : W} {drag : DragId}

theorem beginCoreDnd_accepted [DecidableEq C] {client : C} {token : SourceToken}
    (h : (p.beginCoreDnd client token origin drag).1.error = none) : ∃ record, p.sources.find token = some record
      ∧ record.use = none ∧ record.resource.alive = true ∧ p.activeDnd = none ∧ p.beginCoreDnd client token origin drag
        = (.ok, { p.useSource token record .dnd with activeDnd := some ⟨some token, origin, drag, none⟩ }) := by
  rw [beginCoreDnd] at h ⊢
  cases hr : p.sources.find token with
  | none =>
    rw [hr] at h
    cases h
  | some record =>
    rw [hr] at h
    dsimp only at h ⊢
    split_ifs at h ⊢ with hwrong hused hdead
    · cases h
    · cases h
    · cases h
    grind [Option.not_isSome_iff_eq_none]

theorem beginLocalDnd_accepted (h : (p.beginLocalDnd origin drag).1.error = none) : p.activeDnd = none
    ∧ p.beginLocalDnd origin drag = (.ok, { p with activeDnd := some ⟨none, origin, drag, none⟩ }) := by
  rw [beginLocalDnd] at h ⊢
  split_ifs at h ⊢ with hactive
  · cases h
  · exact ⟨Option.not_isSome_iff_eq_none.mp hactive, rfl⟩

section Apart

variable {p' : SelectionProtocol C W} {client : C} {source : Option SourceToken} {kind : SourceKind}
  {target : SelectionTarget}

theorem Prepared.activeDnd (h : p.Prepared client kind target source p') : p'.activeDnd = p.activeDnd := by
  obtain ⟨-, rfl⟩ | ⟨token, record, -, -, -, -, -, rfl⟩ := h
  · rfl
  · rfl

variable [DecidableEq C]

theorem setFocusedSelection_activeDnd (client : C) (source : Option SourceToken) (kind : SourceKind)
    (target : SelectionTarget) : (p.setFocusedSelection client source kind target).2.activeDnd = p.activeDnd := by
  obtain ⟨error, heq⟩ | ⟨-, p', hp, heq⟩ := p.setFocusedSelection_cases client source kind target
  · rw [heq]
  · rw [heq, replaceSelection_activeDnd, hp.activeDnd]

theorem setControlSelection_activeDnd (client : C) (source : Option SourceToken) (kind : SourceKind)
    (target : SelectionTarget) : (p.setControlSelection client source kind target).2.activeDnd = p.activeDnd := by
  obtain ⟨error, heq⟩ | ⟨p', hp, heq⟩ := p.setControlSelection_cases client source kind target
  · rw [heq]
  · rw [heq, replaceSelection_activeDnd, hp.activeDnd]

theorem handle_activeDnd {e : Event C W} {done : Reply × SelectionProtocol C W} (h : e.handle p = some done)
    (hapart : e.apart = true) : done.2.activeDnd = p.activeDnd := by
  cases e with
  | createSource client kind version rounds =>
    obtain ⟨allocated, hallocated, heq⟩ := Option.map_eq_some_iff.mp h
    obtain ⟨-, next, hnext⟩ := allocateSource_some hallocated
    rw [← heq, hnext]
    rfl
  | offer source mimeType =>
    cases h
    grind [offerMime]
  | setActions source actions =>
    cases h
    grind [setCoreActions]
  | setCoreSelection client source =>
    cases h
    exact setFocusedSelection_activeDnd ..
  | setPrimarySelection client source =>
    cases h
    exact setFocusedSelection_activeDnd ..
  | setWlrSelection client source target =>
    cases h
    exact setControlSelection_activeDnd ..
  | setExtSelection client source target =>
    cases h
    exact setControlSelection_activeDnd ..
  | setFocus focused =>
    cases h
    rfl
  | receive client named mimeType =>
    cases h
    rfl
  | beginCoreDnd | beginLocalDnd | dndMotion | endDnd | disconnect | sourceDestroyed => cases hapart

end Apart

end SelectionProtocol

namespace World

variable [DecidableEq C] [DecidableEq W] (w : World C W)

def step : DndEvent C W → Option (World C W)
  | .selection e => if e.apart then (e.handle w.selection).map fun done => { w with selection := done.2 } else none
  | .startCoreDnd client source origin => some (w.startCoreDnd client source origin)
  | .startLocalDnd origin => some (w.startLocalDnd origin)
  | .dndMotion target => some (w.dndMotion target)
  | .dropDnd => some w.dropDnd
  | .cancelDnd => some w.cancelDnd
  | .disconnect source => some (w.disconnect source)
  | .sourceDestroyed source => some (w.sourceDestroyed source)
  | .surfaceDestroyed surface => some (w.surfaceDestroyed surface)
  | .accept id mimeType => some (w.accept id mimeType)
  | .receive id mimeType => some (w.receive id mimeType)
  | .finish id => some (w.finish id)
  | .setActions id actions preferred => some (w.setActions id actions preferred)
  | .offerDestroyed id => some (w.offerDestroyed id)

def Sparing : DndEvent C W → Prop
  | .finish id => ∀ offer drag core, w.offers.find id = some offer → offer.state.readyToFinish = true →
      offer.source = some drag → w.drags.find drag = some (.coreSource core) → hears core = true → core.cancelled = false
  | _ => True

def Step (e : DndEvent C W) (w' : World C W) : Prop := w.Sparing e ∧ w.step e = some w'

section Shared

variable {w : World C W} {drag : DragId} {id : OfferId} {offer : DndOffer}

omit [DecidableEq C] [DecidableEq W]

theorem withCore_cases {P : World C W → Prop} {f : CoreDndSource → World C W} (hw : P w)
    (hf : ∀ core, w.drags.find drag = some (.coreSource core) → P (f core)) : P (w.withCore drag f) := by
  grind [withCore]

theorem chooseSourceAction_good (h : w.Good) (action : DndAction) : (w.chooseSourceAction drag action).Good := by
  apply withCore_cases h
  intro core hcore
  split_ifs
  · exact h.tell hcore ((h.sound.told drag core hcore).snoc nofun nofun nofun)
  · exact h

theorem sendSource_good (h : w.Good) (ho : w.offers.find id = some offer) (hs : offer.source = some drag)
    (mimeType : String) : (w.sendSource drag mimeType).Good := by
  apply withCore_cases h
  intro core hcore
  split_ifs with hsend
  · refine h.tell hcore ((h.sound.told drag core hcore).snoc nofun nofun fun mime he => ?_)
    grind +splitImp +splitIndPred [alive]
  · exact h

theorem cancelSource_frame (w : World C W) (drag : DragId) : ∃ drags log,
    w.cancelSource drag = { w with drags := drags, log := log }
    ∧ (∀ d, d ≠ drag → drags.find d = w.drags.find d ∧ log d = w.log d)
    ∧ ∀ core, drags.find drag = some (.coreSource core) → core.cancelled = true := by
  unfold cancelSource
  cases hsource : w.drags.find drag with
  | none =>
    refine ⟨w.drags, w.log, by rw [withCore, hsource], fun _ _ => ⟨rfl, rfl⟩, fun core hc => ?_⟩
    cases hsource.symm.trans hc
  | some source =>
    cases source with
    | localSource origin alive =>
      refine ⟨w.drags, w.log, by rw [withCore, hsource], fun _ _ => ⟨rfl, rfl⟩, fun core hc => ?_⟩
      cases hsource.symm.trans hc
    | coreSource core =>
      refine ⟨w.drags.insert drag (.coreSource { core with cancelled := true }),
        fun d => if d = drag ∧ !core.cancelled ∧ hears core then w.log d ++ [.cancelled] else w.log d, ?_,
        fun d hd => ⟨by rw [Map.find_insert, if_neg hd], if_neg fun hboth => hd hboth.1⟩, fun c hc => ?_⟩
      · rw [withCore, hsource]
        dsimp only [setCore, tell]
        split_ifs with hsent
        · simp only [hsent, and_true]
        · have hquiet : (fun d => if d = drag ∧ !core.cancelled ∧ hears core then w.log d ++ [.cancelled] else w.log d)
              = w.log := by
            funext d
            exact if_neg fun hboth => hsent hboth.2
          rw [hquiet]
      grind [Map.find_insert]

theorem cancelSource_sound (h : w.Sound) (hactive : ∀ active, w.selection.activeDnd = some active → active.source ≠ drag)
    (hfinished : ∀ core, w.drags.find drag = some (.coreSource core) → core.finished = false) :
    (w.cancelSource drag).Sound := by
  apply withCore_cases h
  intro core hcore
  have htold := (h.told drag core hcore).cancel (hfinished core hcore)
  have hfind : ∀ d, (w.drags.insert drag (.coreSource { core with cancelled := true })).find d
      = if d = drag then some (.coreSource { core with cancelled := true }) else w.drags.find d := fun d => Map.find_insert ..
  have hidle : ∀ active, w.selection.activeDnd = some active → active.source = drag → true = false ∧ core.finished = false :=
    fun active ha hs => absurd hs (hactive active ha)
  split_ifs at htold ⊢ with hsent
  · exact h.amend hcore hfind (fun d hd => if_neg hd) (by rw [if_pos rfl]; exact htold) hidle
      fun i x _ _ => hfinished core hcore
  · exact h.amend hcore hfind (fun d hd => rfl) htold hidle fun i x _ _ => hfinished core hcore

theorem cancelSource_good (h : w.Good) (hactive : ∀ active, w.selection.activeDnd = some active → active.source ≠ drag)
    (hfinished : ∀ core, w.drags.find drag = some (.coreSource core) → core.finished = false) :
    (w.cancelSource drag).Good := by
  refine ⟨cancelSource_sound h.sound hactive hfinished, ?_⟩
  obtain ⟨drags, log, heq, hrest, hcancelled⟩ := cancelSource_frame w drag
  rw [heq]
  intro i x d core hx hd hdrop hc hnot hhears
  by_cases hdrag : d = drag
  · grind
  · obtain ⟨hdrags, hlog⟩ := hrest d hdrag
    change .dropPerformed ∈ log d
    rw [hlog]
    exact h.performed i x d core hx hd hdrop (hdrags ▸ hc) hnot hhears

theorem dropPerformed_frame (w : World C W) (drag : DragId) : ∃ log, w.dropPerformed drag = { w with log := log }
    ∧ (∀ d, d ≠ drag → log d = w.log d)
    ∧ ∀ core, w.drags.find drag = some (.coreSource core) → hears core = true → .dropPerformed ∈ log drag := by
  unfold dropPerformed
  by_cases hcore : ∃ core, w.drags.find drag = some (.coreSource core) ∧ hears core = true
  · obtain ⟨core, hcore, hhears⟩ := hcore
    refine ⟨fun d => if d = drag then w.log d ++ [.dropPerformed] else w.log d, ?_, fun d hd => if_neg hd, fun c _ _ => ?_⟩
    · rw [withCore, hcore]
      exact if_pos hhears
    grind
  · refine ⟨w.log, ?_, fun _ _ => rfl, fun core hc hh => absurd ⟨core, hc, hh⟩ hcore⟩
    apply withCore_cases (P := fun v => v = w) rfl
    grind

theorem dropPerformed_sound (h : w.Sound) (drag : DragId) : (w.dropPerformed drag).Sound := by
  apply withCore_cases h
  intro core hcore
  split_ifs
  · exact h.tell hcore ((h.told drag core hcore).snoc nofun nofun nofun)
  · exact h

theorem finishSource_good (h : w.Good) (hactive : ∀ active, w.selection.activeDnd = some active → active.source ≠ drag)
    (hheld : ∀ id offer, w.offers.find id = some offer → offer.source ≠ some drag)
    (hcore : ∀ core, w.drags.find drag = some (.coreSource core) → core.finished = false
      ∧ (hears core = true → core.cancelled = false ∧ .dropPerformed ∈ w.log drag)) : (w.finishSource drag).Good := by
  apply withCore_cases h
  intro core hsource
  obtain ⟨hfinished, hready⟩ := hcore core hsource
  have htold := (h.sound.told drag core hsource).finish (fun hh => (hready hh).1) hfinished fun hh => (hready hh).2
  have hfind : ∀ d, (w.drags.insert drag (.coreSource { core with finished := true })).find d
      = if d = drag then some (.coreSource { core with finished := true }) else w.drags.find d := fun d => Map.find_insert ..
  have hidle : ∀ active, w.selection.activeDnd = some active → active.source = drag → core.cancelled = false ∧ true = false :=
    fun active ha hs => absurd hs (hactive active ha)
  split_ifs at htold ⊢ with hsent
  · refine h.amend hsource hfind
      (fun d hd => if_neg hd) (by rw [if_pos rfl]; exact htold) hidle (fun i x hx hs => absurd hs (hheld i x hx)) (fun hc => hc)
      rfl fun e he => ?_
    rw [if_pos rfl]
    exact List.mem_append_left _ he
  · exact h.amend hsource hfind (fun d hd => rfl) htold hidle (fun i x hx hs => absurd hs (hheld i x hx)) (fun hc => hc)
      rfl fun e he => he

theorem chooseSourceAction_frame (w : World C W) (drag : DragId) (action : DndAction) :
    ∃ log, w.chooseSourceAction drag action = { w with log := log } := by
  apply withCore_cases (P := fun v => ∃ log, v = { w with log := log }) ⟨w.log, rfl⟩
  intro core _
  split_ifs
  · exact ⟨_, rfl⟩
  · exact ⟨w.log, rfl⟩

theorem disable_good (h : w.Good) (id : OfferId) : (w.disable id).Good := by
  unfold disable
  cases ho : w.offers.find id with
  | none => exact h
  | some offer =>
    have hreleased : Good { w with
        offers := w.offers.insert id { offer with state := offer.state.inactive, source := none }
        left := id :: w.left } :=
      h.reoffer ho rfl (.inr rfl) (fun i hi => (List.mem_cons.mp hi).symm) fun _ => ⟨rfl, rfl⟩
    dsimp only
    cases offer.source with
    | none => exact hreleased
    | some drag => exact chooseSourceAction_good hreleased 0

theorem disable_frame (w : World C W) (id : OfferId) : ∃ offers log left, w.disable id = { w with
    offers := offers, log := log, left := left } ∧ ∀ i, offers.find i = (w.offers.find i).map fun offer =>
      if i = id then { offer with state := offer.state.inactive, source := none } else offer := by
  unfold disable
  cases ho : w.offers.find id with
  | none =>
    refine ⟨w.offers, w.log, w.left, rfl, fun i => ?_⟩
    by_cases hi : i = id
    · rw [hi, ho]
      rfl
    · simp [hi]
  | some offer =>
    have hfind : ∀ i, (w.offers.insert id { offer with state := offer.state.inactive, source := none }).find i
        = (w.offers.find i).map fun offer =>
          if i = id then { offer with state := offer.state.inactive, source := none } else offer := by
      intro i
      rw [Map.find_insert]
      by_cases hi : i = id
      · grind
      · simp [hi]
    dsimp only
    cases offer.source with
    | none => exact ⟨_, w.log, id :: w.left, rfl, hfind⟩
    | some drag =>
      obtain ⟨log, hlog⟩ := chooseSourceAction_frame { w with
        offers := w.offers.insert id { offer with state := offer.state.inactive, source := none }
        left := id :: w.left } drag 0
      exact ⟨_, log, id :: w.left, hlog, hfind⟩

theorem disableTarget_good (h : w.Good) (target : Option (DndTarget W)) : (w.disableTarget target).Good := by
  grind [disableTarget, disable_good]

theorem disableTarget_frame (w : World C W) (target : Option (DndTarget W)) : ∃ offers log left,
    w.disableTarget target = { w with offers := offers, log := log, left := left }
    ∧ ∀ i x, offers.find i = some x → x.source ≠ none →
      target.bind DndTarget.offer ≠ some i ∧ w.offers.find i = some x := by
  unfold disableTarget
  cases target.bind DndTarget.offer with
  | none => grind
  | some id =>
    obtain ⟨offers, log, left, heq, hfind⟩ := disable_frame w id
    refine ⟨offers, log, left, heq, fun i x hx hs => ?_⟩
    rw [hfind] at hx
    obtain ⟨y, hy, hxy⟩ := Option.map_eq_some_iff.mp hx
    grind

theorem chooseSourceAction_selection (w : World C W) (selection : SelectionProtocol C W) (drag : DragId)
    (action : DndAction) : ({ w with selection := selection }).chooseSourceAction drag action
      = { w.chooseSourceAction drag action with selection := selection } := by
  unfold chooseSourceAction withCore
  cases w.drags.find drag with
  | none => rfl
  | some source =>
    cases source with
    | localSource origin alive => rfl
    | coreSource core =>
      dsimp only
      split_ifs <;> rfl

theorem disableTarget_selection (w : World C W) (selection : SelectionProtocol C W) (target : Option (DndTarget W)) :
    ({ w with selection := selection }).disableTarget target
      = { w.disableTarget target with selection := selection } := by
  unfold disableTarget
  cases target.bind DndTarget.offer with
  | none => rfl
  | some id =>
    unfold disable
    dsimp only
    split
    · rfl
    · rename_i offer _
      split
      · rename_i drag _
        exact chooseSourceAction_selection { w with
          offers := w.offers.insert id { offer with state := offer.state.inactive, source := none }
          left := id :: w.left } selection drag 0
      · rfl

theorem disableTarget_free (h : w.Good) {active : ActiveDnd W} (hactive : w.selection.activeDnd = some active) :
    ∀ id offer drag, (w.disableTarget active.target).offers.find id = some offer → offer.source = some drag →
      offer.state.dropped = true := by
  obtain ⟨offers, log, left, heq, hback⟩ := disableTarget_frame w active.target
  rw [heq]
  intro i x d hx hd
  obtain ⟨hnot, hx⟩ := hback i x hx (by rw [hd]; nofun)
  obtain ⟨-, active', hactive', -, hoffer⟩ | ⟨hdropped, -⟩ := (h.sound.held i x d hx hd).1
  · cases hactive.symm.trans hactive'
    exact absurd hoffer hnot
  · exact hdropped

end Shared

section Operations

variable {w : World C W} {id : OfferId}

omit [DecidableEq W] in
theorem startCoreDnd_good (h : w.Good) (client : C) (token : SourceToken) (origin : W) :
    (w.startCoreDnd client token origin).Good := by
  unfold startCoreDnd
  dsimp only
  split
  · rename_i record herror hrecord
    obtain ⟨_, -, -, -, hnone, hbegun⟩ := SelectionProtocol.beginCoreDnd_accepted herror
    grind [h.begin]
  · exact h

omit [DecidableEq C] [DecidableEq W]

theorem startLocalDnd_good (h : w.Good) (origin : W) : (w.startLocalDnd origin).Good := by
  unfold startLocalDnd
  dsimp only
  split
  · rename_i herror
    obtain ⟨hnone, hbegun⟩ := SelectionProtocol.beginLocalDnd_accepted herror
    grind [h.begin]
  · exact h

theorem enterOffer_cases (w : World C W) (drag : DragId) (entered : Entered W) : w.enterOffer drag entered = (none, w)
    ∨ ∃ offer, w.enterOffer drag entered = w.addOffer offer ∧ offer.source = some drag
        ∧ offer.state.dropped = false ∧ offer.state.finished = false := by
  grind [enterOffer]

theorem dndMotion_good [DecidableEq W] (h : w.Good) (target : Option (Entered W)) : (w.dndMotion target).Good := by
  unfold dndMotion
  cases hactive : w.selection.activeDnd with
  | none => exact h
  | some active =>
    dsimp only
    split_ifs
    · exact h
    · have hgood := disableTarget_good h active.target
      have hfree := disableTarget_free h hactive
      obtain ⟨offers, log, left, heq, -⟩ := disableTarget_frame w active.target
      rw [heq] at hgood hfree ⊢
      cases target with
      | none =>
        refine hgood.detach (fun a ha => ?_) hfree
        obtain ⟨old, hold, rfl⟩ := Option.map_eq_some_iff.mp ha
        exact ⟨rfl, old, hold, rfl⟩
      | some entered =>
        dsimp only
        obtain hnone | ⟨offer, hsome, hsource, hdropped, hfinished⟩ := enterOffer_cases
          ({ w with offers := offers, log := log, left := left }) active.source entered
        · rw [hnone]
          refine hgood.detach (fun a ha => ?_) hfree
          obtain ⟨old, hold, rfl⟩ := Option.map_eq_some_iff.mp ha
          exact ⟨rfl, old, hold, rfl⟩
        · rw [hsome]
          have hnew : (w.selection.setTarget (some ⟨entered.surface, some w.nextOffer⟩)).activeDnd
              = some { active with target := some ⟨entered.surface, some w.nextOffer⟩ } := by
            rw [SelectionProtocol.setTarget, hactive, Option.map_some]
          exact hgood.enter hactive hnew rfl rfl hfree hdropped hfinished hsource

theorem dropDnd_good (h : w.Good) : w.dropDnd.Good := by
  unfold dropDnd
  cases hactive : w.selection.activeDnd with
  | none => exact h
  | some active =>
    obtain ⟨source, hsource, hflags⟩ := h.sound.source active hactive
    have hfinished : ∀ core, w.drags.find active.source = some (.coreSource core) → core.finished = false := by
      intro core hc
      rw [hsource, Option.some.injEq] at hc
      exact (hflags core hc).2
    have hnone : ∀ a, w.selection.takeDnd.2.activeDnd = some a → a.source ≠ active.source := nofun
    dsimp only
    cases htarget : active.target.bind DndTarget.offer with
    | none =>
      have hfree : ∀ id offer drag, w.offers.find id = some offer → offer.source = some drag →
          offer.state.dropped = true := by
        intro i x d hx hd
        obtain ⟨-, a, ha, -, hoffer⟩ | ⟨hdropped, -⟩ := (h.sound.held i x d hx hd).1
        · cases hactive.symm.trans ha
          cases htarget.symm.trans hoffer
        · exact hdropped
      have hdetached : Good { w with selection := w.selection.takeDnd.2 } := h.detach nofun hfree
      exact cancelSource_good hdetached hnone hfinished
    | some id =>
      obtain ⟨offer, ho, -⟩ := h.sound.target active id hactive htarget
      have hdropped : Sound (({ w with selection := w.selection.takeDnd.2 }).setOffer id
          { offer with state := { offer.state with dropped := true } }) :=
        h.sound.drop hactive rfl htarget ho
      rw [Option.map_some, Option.getD_some, dropOffer]
      simp only [ho]
      split_ifs
      · obtain ⟨log, heq, hrest, htold⟩ := dropPerformed_frame (({ w with selection := w.selection.takeDnd.2 }).setOffer id
          { offer with state := { offer.state with dropped := true } }) active.source
        have hs := dropPerformed_sound hdropped active.source
        rw [heq] at hs ⊢
        exact h.drop hs hactive htarget ho rfl (fun d hd => ⟨rfl, hrest d hd⟩) fun core hc _ hh => htold core hc hh
      · obtain ⟨drags, log, heq, hrest, hcancelled⟩ := cancelSource_frame
          (({ w with selection := w.selection.takeDnd.2 }).setOffer id
            { offer with state := { offer.state with dropped := true } }) active.source
        have hs := cancelSource_sound hdropped hnone hfinished
        rw [heq] at hs ⊢
        refine h.drop hs hactive htarget ho rfl hrest fun core hc hnot _ => ?_
        cases hnot.symm.trans (hcancelled core hc)

theorem cancelDnd_good (h : w.Good) : w.cancelDnd.Good := by
  unfold cancelDnd
  cases hactive : w.selection.activeDnd with
  | none => exact h
  | some active =>
    obtain ⟨source, hsource, hflags⟩ := h.sound.source active hactive
    have hgood := disableTarget_good h active.target
    have hfree := disableTarget_free h hactive
    obtain ⟨offers, log, left, heq, -⟩ := disableTarget_frame w active.target
    dsimp only
    rw [disableTarget_selection, heq]
    rw [heq] at hgood hfree
    have hdetached : Good { w with
        selection := w.selection.takeDnd.2, offers := offers, log := log, left := left } := hgood.detach nofun hfree
    refine cancelSource_good hdetached nofun fun core hc => ?_
    grind

theorem dead_withers (token : SourceToken) : Withers (dead token : DndSource W → DndSource W) := by
  intro source core hs
  cases source with
  | localSource origin alive => cases hs
  | coreSource old =>
    refine ⟨old, if old.token = token then false else old.alive, rfl, ?_, fun halive => ?_⟩
    · rw [dead, DndSource.coreSource.injEq] at hs
      rw [← hs]
      split_ifs <;> rfl
    · split_ifs at halive
      exact halive

theorem gone_withers [DecidableEq W] (surface : W) : Withers (gone surface : DndSource W → DndSource W) := by
  intro source core hs
  cases source with
  | localSource origin alive => cases hs
  | coreSource old =>
    cases hs
    grind

section

variable (h : w.Good)
include h

theorem disconnect_good (token : SourceToken) : (w.disconnect token).Good := by
  have hdead : Good { w with drags := w.drags.mapValues fun _ source => dead token source } :=
    h.wither (fun d => Map.find_mapValues ..) (dead_withers token)
  exact hdead.reselect rfl

theorem sourceDestroyed_good (token : SourceToken) : (w.sourceDestroyed token).Good := by
  have hdead : Good { w with drags := w.drags.mapValues fun _ source => dead token source } :=
    h.wither (fun d => Map.find_mapValues ..) (dead_withers token)
  grind [SelectionProtocol.sourceDestroyed, sourceDestroyed, cancelDnd_good, hdead.reselect]

theorem surfaceDestroyed_good [DecidableEq W] (surface : W) : (w.surfaceDestroyed surface).Good := by
  have hgone : Good { w with drags := w.drags.mapValues fun _ source => gone surface source } :=
    h.wither (fun d => Map.find_mapValues ..) (gone_withers surface)
  grind [surfaceDestroyed, cancelDnd_good]

theorem accept_good (id : OfferId) (mimeType : Option String) : (w.accept id mimeType).Good := by
  unfold accept
  cases ho : w.offers.find id with
  | none => exact h
  | some offer =>
    dsimp only
    split_ifs
    · exact h
    · have hrestated : Good (w.setOffer id { offer with
          state := { offer.state with accepted := (mimeType.filter fun mime => mime ∈ offer.mimeTypes).isSome } }) :=
        h.restate ho rfl rfl fun hactive => hactive
      split
      · exact hrestated
      · rename_i drag _
        apply withCore_cases hrestated
        intro core hcore
        split_ifs
        · exact hrestated.tell hcore ((hrestated.sound.told drag core hcore).snoc nofun nofun nofun)
        · exact hrestated

theorem receive_good (id : OfferId) (mimeType : String) : (w.receive id mimeType).Good := by
  grind [receive, sendSource_good]

theorem setActions_good (id : OfferId) (actions preferred : Option DndAction) :
    (w.setActions id actions preferred).Good := by
  unfold setActions
  grind [h.restate, chooseSourceAction_good]

theorem offerDestroyed_good (id : OfferId) : (w.offerDestroyed id).Good := by
  unfold offerDestroyed
  cases ho : w.offers.find id with
  | none => exact h
  | some offer =>
    dsimp only
    split_ifs with hfinished hdropped
    · exact h
    · have hreleased : Good (w.setOffer id { offer with state := offer.state.inactive, source := none }) :=
        h.reoffer ho rfl (.inr rfl) (fun i hi => .inl hi) fun _ => ⟨rfl, rfl⟩
      split
      · exact hreleased
      · rename_i drag hs
        obtain ⟨howned, source, hsource, hflag⟩ := h.sound.held id offer drag ho hs
        have hactive : ∀ active, w.selection.activeDnd = some active → active.source ≠ drag := by
          obtain ⟨hundropped, -⟩ | ⟨-, hactive⟩ := howned
          · cases hundropped.symm.trans hdropped
          · exact hactive
        refine cancelSource_good hreleased hactive fun core hc => ?_
        change w.drags.find drag = _ at hc
        rw [hsource, Option.some.injEq] at hc
        exact hflag core hc
    · refine h.restate ho rfl rfl fun hactive => ?_
      cases hactive

theorem ready_to_finish {offer : DndOffer} {drag : DragId} (ho : w.offers.find id = some offer)
    (hready : offer.state.readyToFinish = true) (hs : offer.source = some drag) :
    offer.state.dropped = true ∧ (∀ active, w.selection.activeDnd = some active → active.source ≠ drag)
    ∧ ∀ core, w.drags.find drag = some (.coreSource core) → core.finished = false := by
  have hdropped : offer.state.dropped = true := by
    simp only [DndOfferState.readyToFinish, Bool.and_eq_true] at hready
    exact hready.1.2
  obtain ⟨howned, source, hsource, hflag⟩ := h.sound.held id offer drag ho hs
  refine ⟨hdropped, ?_, fun core hc => ?_⟩
  · obtain ⟨hundropped, -⟩ | ⟨-, hactive⟩ := howned
    · cases hundropped.symm.trans hdropped
    · exact hactive
  grind

theorem finish_good (hsparing : w.Sparing (.finish id)) : (w.finish id).Good := by
  unfold finish
  cases ho : w.offers.find id with
  | none => exact h
  | some offer =>
    dsimp only
    split_ifs with hready
    · exact h
    · rw [Bool.not_eq_true', Bool.not_eq_false] at hready
      have hreleased : Good (w.setOffer id
          { offer with state := { offer.state with active := false, finished := true }, source := none }) :=
        h.reoffer ho rfl (.inr rfl) (fun i hi => .inl hi) fun _ => ⟨rfl, rfl⟩
      split
      · exact hreleased
      · rename_i drag hs
        obtain ⟨hdropped, hactive, hunfinished⟩ := ready_to_finish h ho hready hs
        refine finishSource_good hreleased hactive (fun i x hx hd => ?_) fun core hc =>
          ⟨hunfinished core hc, fun hh => ?_⟩
        · change (w.offers.insert id _).find i = some x at hx
          grind [Map.find_insert, h.sound.alone]
        · have hcancelled := hsparing offer drag core ho hready hs hc hh
          exact ⟨hcancelled, h.performed id offer drag core ho hs hdropped hc hcancelled hh⟩

end

end Operations

section Steps

variable {w w' : World C W} {e : DndEvent C W}

theorem step_good (h : w.Good) (hsparing : w.Sparing e) (hstep : w.step e = some w') : w'.Good := by
  cases e with
  | selection e =>
    rw [step] at hstep
    split_ifs at hstep with hapart
    obtain ⟨done, hhandle, rfl⟩ := Option.map_eq_some_iff.mp hstep
    exact h.reselect (SelectionProtocol.handle_activeDnd hhandle hapart)
  | startCoreDnd client source origin =>
    cases hstep
    exact startCoreDnd_good h client source origin
  | startLocalDnd origin =>
    cases hstep
    exact startLocalDnd_good h origin
  | dndMotion target =>
    cases hstep
    exact dndMotion_good h target
  | dropDnd =>
    cases hstep
    exact dropDnd_good h
  | cancelDnd =>
    cases hstep
    exact cancelDnd_good h
  | disconnect source =>
    cases hstep
    exact disconnect_good h source
  | sourceDestroyed source =>
    cases hstep
    exact sourceDestroyed_good h source
  | surfaceDestroyed surface =>
    cases hstep
    exact surfaceDestroyed_good h surface
  | accept id mimeType =>
    cases hstep
    exact accept_good h id mimeType
  | receive id mimeType =>
    cases hstep
    exact receive_good h id mimeType
  | finish id =>
    cases hstep
    exact finish_good h hsparing
  | setActions id actions preferred =>
    cases hstep
    exact setActions_good h id actions preferred
  | offerDestroyed id =>
    cases hstep
    exact offerDestroyed_good h id

end Steps

end World

end TensorDE.Protocol.Selection
