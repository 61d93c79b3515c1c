import TensorDE.Protocol.DragSteps

set_option linter.dupNamespace false

namespace TensorDE.Protocol.Selection

open TensorDE.Maps TensorDE.Trace

variable {C W : Type}

namespace Session

theorem uses_kept [DecidableEq C] {q q' : Session C W} {e : Event C W} {reply : Reply} {token : SourceToken}
    {mimeTypes : List String} (hq : q.Good) (hstep : q.step e = some (reply, q')) (huses : q.uses token = [mimeTypes])
    (hdestroyed : e.destroyed ≠ some token) : q'.uses token = [mimeTypes] := by
  have hlength : (q'.uses token).length ≤ 1 := by
    have hq' := step_good hq hstep
    cases hr : q'.protocol.sources.find token with
    | none => rw [(hq'.absent token hr).1]; exact Nat.zero_le _
    | some record =>
      rw [hq'.used token record hr]
      grind
  obtain ⟨done, -, heq⟩ := Option.map_eq_some_iff.mp hstep
  obtain ⟨rfl, rfl⟩ := Prod.mk.inj heq
  grind [noteUses]

end Session

namespace World

variable [DecidableEq C] [DecidableEq W]

section Sources

variable {w w' : World C W} {drag : DragId} {q q' : Session C W}

omit [DecidableEq C] [DecidableEq W]

def known (w : World C W) (drag : DragId) : Option (SourceToken × List String) :=
  match w.drags.find drag with
  | some (.coreSource core) => if core.alive then some (core.token, core.mimeTypes) else none
  | _ => none

/-- The drags go on with the same sources and selections. -/
structure Same (w w' : World C W) : Prop where
  selection : w'.selection = w.selection
  known : ∀ drag, w'.known drag = w.known drag

namespace Same

theorem refl : Same w w := ⟨rfl, fun _ => rfl⟩

theorem trans {w'' : World C W} (h : Same w w') (h' : Same w' w'') : Same w w'' :=
  ⟨h'.selection.trans h.selection, fun drag => (h'.known drag).trans (h.known drag)⟩

theorem setCore {core core' : CoreDndSource} (hcore : w.drags.find drag = some (.coreSource core))
    (htoken : core'.token = core.token) (halive : core'.alive = core.alive) (hmimes : core'.mimeTypes = core.mimeTypes) :
    Same w (w.setCore drag core') := by
  refine ⟨rfl, fun d => ?_⟩
  grind [World.known, World.setCore, Map.find_insert]

theorem chooseSourceAction (w : World C W) (drag : DragId) (action : DndAction) :
    Same w (w.chooseSourceAction drag action) := by
  obtain ⟨log, heq⟩ := chooseSourceAction_frame w drag action
  rw [heq]
  exact ⟨rfl, fun _ => rfl⟩

theorem sendSource (w : World C W) (drag : DragId) (mimeType : String) : Same w (w.sendSource drag mimeType) := by
  apply withCore_cases refl
  intro core _
  split_ifs
  · exact ⟨rfl, fun _ => rfl⟩
  · exact refl

theorem dropPerformed (w : World C W) (drag : DragId) : Same w (w.dropPerformed drag) := by
  obtain ⟨log, heq, -⟩ := dropPerformed_frame w drag
  rw [heq]
  exact ⟨rfl, fun _ => rfl⟩

theorem cancelSource (w : World C W) (drag : DragId) : Same w (w.cancelSource drag) := by
  apply withCore_cases refl
  intro core hcore
  have hset : Same w (w.setCore drag { core with cancelled := true }) := setCore hcore rfl rfl rfl
  split_ifs
  · exact hset.trans ⟨rfl, fun _ => rfl⟩
  · exact hset

theorem finishSource (w : World C W) (drag : DragId) : Same w (w.finishSource drag) := by
  apply withCore_cases refl
  intro core hcore
  have hset : Same w (w.setCore drag { core with finished := true }) := setCore hcore rfl rfl rfl
  split_ifs
  · exact hset.trans ⟨rfl, fun _ => rfl⟩
  · exact hset

theorem setOffer (w : World C W) (id : OfferId) (offer : DndOffer) : Same w (w.setOffer id offer) := ⟨rfl, fun _ => rfl⟩

theorem disableTarget (w : World C W) (target : Option (DndTarget W)) : Same w (w.disableTarget target) := by
  obtain ⟨offers, log, left, heq, -⟩ := disableTarget_frame w target
  rw [heq]
  exact ⟨rfl, fun _ => rfl⟩

theorem enterOffer (w : World C W) (drag : DragId) (entered : Entered W) : Same w (w.enterOffer drag entered).2 := by
  obtain heq | ⟨offer, heq, -⟩ := enterOffer_cases w drag entered
  · rw [heq]
    exact refl
  · rw [heq]
    exact ⟨rfl, fun _ => rfl⟩

theorem accept (w : World C W) (id : OfferId) (mimeType : Option String) : Same w (w.accept id mimeType) := by
  unfold World.accept
  split
  · exact refl
  · split_ifs
    · exact refl
    · split
      · exact setOffer ..
      · apply withCore_cases (setOffer ..)
        intro core _
        split_ifs
        · exact ⟨rfl, fun _ => rfl⟩
        · exact setOffer ..

theorem receive (w : World C W) (id : OfferId) (mimeType : String) : Same w (w.receive id mimeType) := by
  grind [World.receive, refl, sendSource]

theorem finish (w : World C W) (id : OfferId) : Same w (w.finish id) := by
  unfold World.finish
  split
  · exact refl
  · split_ifs
    · exact refl
    · split
      · exact setOffer ..
      · exact (setOffer ..).trans (finishSource ..)

theorem setActions (w : World C W) (id : OfferId) (actions preferred : Option DndAction) :
    Same w (w.setActions id actions preferred) := by
  unfold World.setActions
  split
  · split_ifs
    · exact refl
    · split
      · exact refl
      · split_ifs
        · exact refl
        · split
          · exact setOffer ..
          · exact (setOffer ..).trans (chooseSourceAction ..)
  · exact refl

theorem offerDestroyed (w : World C W) (id : OfferId) : Same w (w.offerDestroyed id) := by
  unfold World.offerDestroyed
  split
  · exact refl
  · split_ifs
    · exact refl
    · split
      · exact setOffer ..
      · exact (setOffer ..).trans (cancelSource ..)
    · exact setOffer ..

theorem dropOffer (w : World C W) (id : OfferId) : Same w (w.dropOffer id).2 := by
  grind [World.dropOffer, refl, setOffer]

theorem taken (h : w.selection.activeDnd = none) : Same { w with selection := w.selection.takeDnd.2 } w := by
  refine ⟨?_, fun _ => rfl⟩
  rw [SelectionProtocol.takeDnd, ← h]

theorem cancelDnd (w : World C W) : Same { w with selection := w.selection.takeDnd.2 } w.cancelDnd := by
  unfold World.cancelDnd
  cases hactive : w.selection.activeDnd with
  | none => exact taken hactive
  | some active => exact (disableTarget ..).trans (cancelSource ..)

theorem dropDnd (w : World C W) : Same { w with selection := w.selection.takeDnd.2 } w.dropDnd := by
  unfold World.dropDnd
  cases hactive : w.selection.activeDnd with
  | none => exact taken hactive
  | some active =>
    dsimp only
    cases active.target.bind DndTarget.offer with
    | none => exact cancelSource ..
    | some id =>
      split_ifs
      · exact (dropOffer ..).trans (dropPerformed ..)
      · exact (dropOffer ..).trans (cancelSource ..)

end Same

theorem known_dead {token t : SourceToken} {mimeTypes : List String}
    (h : ({ w with drags := w.drags.mapValues fun _ source => dead token source } : World C W).known drag
      = some (t, mimeTypes)) : w.known drag = some (t, mimeTypes) ∧ t ≠ token := by
  unfold known at h ⊢
  rw [Map.find_mapValues] at h
  cases hd : w.drags.find drag with
  | none =>
    rw [hd] at h
    cases h
  | some source =>
    rw [hd] at h
    cases source with
    | localSource origin alive => cases h
    | coreSource core => grind [dead]

theorem known_gone [DecidableEq W] (surface : W) (drag : DragId) :
    ({ w with drags := w.drags.mapValues fun _ source => gone surface source } : World C W).known drag = w.known drag := by
  unfold known
  rw [Map.find_mapValues]
  cases w.drags.find drag with
  | none => rfl
  | some source => cases source <;> rfl

theorem known_begun {selection : SelectionProtocol C W} {source : DndSource W} {next : Nat} :
    ({ w with selection := selection, nextDrag := next, drags := w.drags.insert w.nextDrag source } : World C W).known drag
      = if drag = w.nextDrag
        then (match source with
          | .coreSource core => if core.alive then some (core.token, core.mimeTypes) else none
          | .localSource _ _ => none)
        else w.known drag := by
  grind [known, Map.find_insert]

structure Linked (q : Session C W) (w : World C W) : Prop where
  good : q.Good
  protocol : q.protocol = w.selection
  uses : ∀ drag token mimeTypes, w.known drag = some (token, mimeTypes) → q.uses token = [mimeTypes]
  one : ∀ drag drag' token mimeTypes mimeTypes', w.known drag = some (token, mimeTypes) →
    w.known drag' = some (token, mimeTypes') → drag = drag'

namespace Linked

section

variable (h : Linked q w)
include h

theorem same (hsame : Same w w') : Linked q w' :=
  ⟨h.good, h.protocol.trans hsame.selection.symm, fun d t m hd => h.uses d t m ((hsame.known d).symm.trans hd),
    fun d d' t m m' hd hd' => h.one d d' t m m' ((hsame.known d).symm.trans hd) ((hsame.known d').symm.trans hd')⟩

theorem take [DecidableEq C] {e : Event C W} {reply : Reply} (hstep : q.step e = some (reply, q'))
    (hprotocol : q'.protocol = w'.selection) (hknown : ∀ d t m, w'.known d = some (t, m) →
      w.known d = some (t, m) ∧ e.destroyed ≠ some t) : Linked q' w' :=
  ⟨Session.step_good h.good hstep, hprotocol,
    fun d t m hd => Session.uses_kept h.good hstep (h.uses d t m (hknown d t m hd).1) (hknown d t m hd).2,
    fun d d' t m m' hd hd' => h.one d d' t m m' (hknown d t m hd).1 (hknown d' t m' hd').1⟩

theorem ended [DecidableEq C] (hsame : Same { w with selection := w.selection.takeDnd.2 } w') :
    ∃ q', Linked q' w' := by
  have hended : Linked _ { w with selection := w.selection.takeDnd.2 } :=
    h.take (e := .endDnd) rfl (congrArg (fun p => p.takeDnd.2) h.protocol) fun d t m hd => ⟨hd, nofun⟩
  exact ⟨_, hended.same hsame⟩

theorem startCoreDnd [DecidableEq C] (client : C) (token : SourceToken) (origin : W) :
    ∃ q', Linked q' (w.startCoreDnd client token origin) := by
  unfold World.startCoreDnd
  dsimp only
  split
  · rename_i record herror hrecord
    obtain ⟨record', hrecord', hunused, -, -, hbegun⟩ := SelectionProtocol.beginCoreDnd_accepted herror
    cases hrecord.symm.trans hrecord'
    have hfree : q.uses token = [] := by
      rw [h.good.used token record (h.protocol ▸ hrecord), hunused]
      rfl
    have hstep : q.step (.beginCoreDnd client token origin w.nextDrag) = some (_, _) := rfl
    have hnew : (Session.noteUses q (.beginCoreDnd client token origin w.nextDrag)
        (q.protocol.beginCoreDnd client token origin w.nextDrag).1) token = [record.mimeTypes] := by
      rw [Session.noteUses, if_neg (fun heq => by cases heq), h.protocol, if_pos ⟨herror, rfl⟩, hfree, hrecord]
      rfl
    refine ⟨_, Session.step_good h.good hstep, ?_, fun d t m hd => ?_, fun d d' t m m' hd hd' => ?_⟩
    · rw [h.protocol]
    · rw [known_begun] at hd
      split_ifs at hd
      · cases hd
        exact hnew
      · exact Session.uses_kept h.good hstep (h.uses d t m hd) fun heq => by cases heq
    grind +splitImp +splitIndPred [known_begun]
  · exact ⟨q, h⟩

theorem startLocalDnd [DecidableEq C] (origin : W) : ∃ q', Linked q' (w.startLocalDnd origin) := by
  unfold World.startLocalDnd
  dsimp only
  split
  · refine ⟨_, h.take (e := .beginLocalDnd origin w.nextDrag) rfl ?_ fun d t m hd => ?_⟩
    · rw [h.protocol]
    · rw [known_begun] at hd
      split_ifs at hd
      exact ⟨hd, nofun⟩
  · exact ⟨q, h⟩

theorem dndMotion [DecidableEq C] [DecidableEq W] (target : Option (Entered W)) :
    ∃ q', Linked q' (w.dndMotion target) := by
  unfold World.dndMotion
  split
  · exact ⟨q, h⟩
  · rename_i active _
    split_ifs
    · exact ⟨q, h⟩
    · have hleft := h.same (Same.disableTarget w active.target)
      cases target with
      | none =>
        exact ⟨_, hleft.take (e := .dndMotion none) rfl (by rw [hleft.protocol]) fun d t m hd => ⟨hd, nofun⟩⟩
      | some entered =>
        have hentered := hleft.same (Same.enterOffer _ active.source entered)
        exact ⟨_, hentered.take (e := .dndMotion (some ⟨entered.surface, _⟩)) rfl (by rw [hentered.protocol])
          fun d t m hd => ⟨hd, nofun⟩⟩

theorem sourceDestroyed [DecidableEq C] (token : SourceToken) : ∃ q', Linked q' (w.sourceDestroyed token) := by
  have hgone : ∃ q', Linked q' { w with
      drags := w.drags.mapValues fun _ source => dead token source
      selection := if (w.selection.sourceDestroyed token).1 then (w.selection.sourceDestroyed token).2.takeDnd.2
        else (w.selection.sourceDestroyed token).2 } := by
    refine ⟨_, h.take (e := .sourceDestroyed token) rfl ?_ fun d t m hd => ?_⟩
    · rw [h.protocol]
    · obtain ⟨hknown, hne⟩ := known_dead hd
      exact ⟨hknown, fun heq => hne (Option.some.inj heq).symm⟩
  obtain ⟨q', hgone⟩ := hgone
  unfold World.sourceDestroyed
  dsimp only
  split_ifs with hactive
  · rw [if_pos hactive] at hgone
    exact ⟨q', hgone.same (Same.cancelDnd { w with
      drags := w.drags.mapValues fun _ source => dead token source
      selection := (w.selection.sourceDestroyed token).2 })⟩
  grind

theorem disconnect [DecidableEq C] (token : SourceToken) : ∃ q', Linked q' (w.disconnect token) :=
  ⟨_, h.take (e := .disconnect token) rfl (congrArg (fun p => p.disconnect token) h.protocol) fun _ _ _ hd =>
    ⟨(known_dead hd).1, nofun⟩⟩

theorem surfaceDestroyed [DecidableEq C] [DecidableEq W] (surface : W) :
    ∃ q', Linked q' (w.surfaceDestroyed surface) := by
  have hgone : Linked q { w with drags := w.drags.mapValues fun _ source => gone surface source } :=
    h.same ⟨rfl, known_gone surface⟩
  unfold World.surfaceDestroyed
  dsimp only
  split_ifs
  · exact hgone.ended (Same.cancelDnd _)
  · exact ⟨q, hgone⟩

theorem step [DecidableEq C] [DecidableEq W] {e : DndEvent C W} (hstep : w.step e = some w') :
    ∃ q', Linked q' w' := by
  cases e with
  | selection e =>
    rw [World.step] at hstep
    split_ifs at hstep with hapart
    obtain ⟨done, hhandle, rfl⟩ := Option.map_eq_some_iff.mp hstep
    have hsession : q.step e = some (done.1, ⟨done.2, q.noteUses e done.1, q.noteCancels e done.1⟩) := by
      rw [Session.step, h.protocol, hhandle]
      rfl
    refine ⟨_, h.take hsession rfl fun _ _ _ hd => ⟨hd, ?_⟩⟩
    cases e with
    | sourceDestroyed => cases hapart
    | _ =>
      intro heq
      cases heq
  | startCoreDnd client source origin =>
    cases hstep
    exact h.startCoreDnd client source origin
  | startLocalDnd origin =>
    cases hstep
    exact h.startLocalDnd origin
  | dndMotion target =>
    cases hstep
    exact h.dndMotion target
  | dropDnd =>
    cases hstep
    exact h.ended (Same.dropDnd w)
  | cancelDnd =>
    cases hstep
    exact h.ended (Same.cancelDnd w)
  | disconnect source =>
    cases hstep
    exact h.disconnect source
  | sourceDestroyed source =>
    cases hstep
    exact h.sourceDestroyed source
  | surfaceDestroyed surface =>
    cases hstep
    exact h.surfaceDestroyed surface
  | accept id mimeType =>
    cases hstep
    exact ⟨q, h.same (Same.accept w id mimeType)⟩
  | receive id mimeType =>
    cases hstep
    exact ⟨q, h.same (Same.receive w id mimeType)⟩
  | finish id =>
    cases hstep
    exact ⟨q, h.same (Same.finish w id)⟩
  | setActions id actions preferred =>
    cases hstep
    exact ⟨q, h.same (Same.setActions w id actions preferred)⟩
  | offerDestroyed id =>
    cases hstep
    exact ⟨q, h.same (Same.offerDestroyed w id)⟩

end

end Linked

end Sources

section Endings

variable {w w' : World C W} {id : OfferId} {offer : DndOffer}

omit [DecidableEq C] [DecidableEq W] in
theorem finish_ends_twice (h : w.Good) {drag : DragId} {core : CoreDndSource} (ho : w.offers.find id = some offer)
    (hready : offer.state.readyToFinish = true) (hs : offer.source = some drag)
    (hcore : w.drags.find drag = some (.coreSource core)) (hhears : hears core = true) (hcancelled : core.cancelled = true) :
    ∃ core', (w.finish id).drags.find drag = some (.coreSource core')
      ∧ ¬WellEnded core'.mimeTypes ((w.finish id).log drag) := by
  obtain ⟨-, -, hunfinished⟩ := ready_to_finish h ho hready hs
  have hsent : !core.finished ∧ hears core := ⟨by rw [hunfinished core hcore]; rfl, hhears⟩
  have heq : w.finish id = ((w.setOffer id
      { offer with state := { offer.state with active := false, finished := true }, source := none }).setCore drag
        { core with finished := true }).tell drag .finished := by
    unfold finish
    simp only [ho, hready, hs, Bool.not_true, Bool.false_eq_true, if_false]
    rw [finishSource, withCore]
    change (match w.drags.find drag with | some (.coreSource source) => _ | _ => _) = _
    rw [hcore]
    exact if_pos hsent
  refine ⟨{ core with finished := true }, ?_, ?_⟩
  · rw [heq]
    exact (Map.find_insert ..).trans (if_pos rfl)
  · rw [heq]
    change ¬WellEnded core.mimeTypes (if drag = drag then w.log drag ++ [.finished] else w.log drag)
    grind +splitImp +splitIndPred

/-- The requests on an offer that its drag has left, or that is finished, have nothing to tell. -/
theorem step_of_parted {e : DndEvent C W} (he : e.offer = some id) (ho : w.offers.find id = some offer)
    (hactive : offer.state.active = false) (hsource : offer.source = none) (hstep : w.step e = some w') :
    w'.selection = w.selection ∧ w'.drags = w.drags ∧ w'.log = w.log := by
  cases e with
  | accept i mimeType =>
    cases he
    cases hstep
    rw [accept, ho]
    simp [hactive]
  | receive i mimeType =>
    cases he
    cases hstep
    rw [receive, ho]
    simp [hactive]
  | finish i =>
    cases he
    cases hstep
    rw [finish, ho]
    simp [hactive, DndOfferState.readyToFinish, DndOfferState.validated]
  | setActions i actions preferred =>
    cases he
    cases hstep
    unfold setActions
    grind
  | offerDestroyed i =>
    cases he
    cases hstep
    rw [offerDestroyed, ho]
    simp only [hsource]
    split_ifs <;> exact ⟨rfl, rfl, rfl⟩
  | selection | startCoreDnd | startLocalDnd | dndMotion | dropDnd | cancelDnd | disconnect | sourceDestroyed
  | surfaceDestroyed => cases he

variable {es : List (DndEvent C W)}

theorem run_good (run : Run Step start es w) : w.Good :=
  run.invariant (P := Good) (Q := fun _ => True) (fun _ _ _ h _ hstep => step_good h hstep.1 hstep.2) start_good
    fun _ _ => trivial

theorem run_linked (run : Run Step start es w) : ∃ q, Linked q w := by
  have hstart : ∃ q, Linked q (start : World C W) := by
    refine ⟨Session.start, new_kept, rfl, fun d t m hd => ?_, fun d d' t m m' hd => ?_⟩
    · grind [known, start, Map.find_empty]
    · grind [known, start, Map.find_empty]
  refine run.invariant (P := fun w => ∃ q, Linked q w) (Q := fun _ => True) (fun w₁ e w₂ h _ hstep => ?_) hstart
    fun _ _ => trivial
  obtain ⟨q, hq⟩ := h
  exact hq.step hstep.2

end Endings

end World

/-- The endings of the sources of drags, over every run in which no offer is finished for a source that its drop has
cancelled: `log` is what each source was sent, and `left` the offers that a drag has left. The last part has the step
that such a run leaves out. -/
theorem drag_sources_end_once [DecidableEq C] [DecidableEq W] {w : World C W} {es : List (DndEvent C W)}
    (run : Run World.Step World.start es w) : (∀ drag core, w.drags.find drag = some (.coreSource core) →
        WellEnded core.mimeTypes (w.log drag)
        ∧ (core.alive = true → ∃ record, w.selection.sources.find core.token = some record
            ∧ record.mimeTypes = core.mimeTypes)
        ∧ ∀ drag' core', w.drags.find drag' = some (.coreSource core') → core.alive = true → core'.alive = true →
            core.token = core'.token → drag = drag')
    ∧ (∀ active token, w.selection.activeDnd = some active → active.sourceToken = some token →
        ∃ record, w.selection.sources.find token = some record ∧ record.use = some .dnd) ∧ ∀ e w', w.step e = some w' →
        (∀ id offer, e.offer = some id → w.offers.find id = some offer → id ∈ w.left ∨ offer.state.finished = true →
            w'.selection = w.selection ∧ w'.drags = w.drags ∧ w'.log = w.log)
        ∧ ((∃ client token origin, e = .startCoreDnd client token origin) ∨ (∃ origin, e = .startLocalDnd origin) →
            w.selection.activeDnd.isSome → w' = w)
        ∧ ((∀ drag core, w'.drags.find drag = some (.coreSource core) → WellEnded core.mimeTypes (w'.log drag))
            ↔ w.Sparing e) := by
  have hgood := World.run_good run
  obtain ⟨q, hlinked⟩ := World.run_linked run
  have hknown : ∀ drag core, w.drags.find drag = some (.coreSource core) → core.alive = true →
      w.known drag = some (core.token, core.mimeTypes) := by
    intro drag core hc halive
    rw [World.known, hc]
    exact if_pos halive
  refine ⟨fun drag core hc => ⟨(hgood.sound.told drag core hc).ended, fun halive => ?_,
    fun drag' core' hc' halive halive' htoken => ?_⟩, ?_, fun e w' hstep => ⟨fun id offer he ho hover => ?_,
    fun hstart hactive => ?_, fun hended => ?_, fun hsparing drag core hc => ?_⟩⟩
  · have huses := hlinked.uses drag _ _ (hknown drag core hc halive)
    cases hr : q.protocol.sources.find core.token with
    | none => grind -linarith [hlinked.good.absent]
    | some record =>
      have hused := hlinked.good.used core.token record hr
      grind -linarith [hlinked.protocol]
  · grind -linarith [hlinked.one]
  · exact hlinked.protocol ▸ hlinked.good.drag
  · grind -linarith [hgood.sound.parted, World.step_of_parted]
  · obtain ⟨client, token, origin, rfl⟩ | ⟨origin, rfl⟩ := hstart
    · cases hstep
      unfold World.startCoreDnd
      dsimp only
      split
      · rename_i herror _
        obtain ⟨_, -, -, -, hnone, -⟩ := SelectionProtocol.beginCoreDnd_accepted herror
        rw [hnone] at hactive
        cases hactive
      · rfl
    · cases hstep
      grind [World.startLocalDnd, SelectionProtocol.beginLocalDnd_accepted]
  · cases e with
    | finish id =>
      intro offer drag core ho hready hs hc hhears
      cases hcancelled : core.cancelled with
      | false => rfl
      | true =>
        obtain ⟨core', hc', hnot⟩ := World.finish_ends_twice hgood ho hready hs hc hhears hcancelled
        cases hstep
        exact absurd (hended drag core' hc') hnot
    | _ => trivial
  · exact ((World.step_good hgood hsparing hstep).sound.told drag core hc).ended

theorem drag_sources_end_once_dropped : ∃ w : World Nat Nat,
    Run World.Step World.start [.selection (.createSource 7 .core 3 1), .selection (.offer 1 "text/plain"),
      .selection (.setActions 1 (some .copy)), .startCoreDnd 7 1 4, .dndMotion (some ⟨5, [3], false, true⟩),
      .accept 0 (some "text/plain"), .setActions 0 (some .copy) (some .copy), .dropDnd, .finish 0] w
    ∧ WellEnded ["text/plain"] (w.log 0) ∧ .finished ∈ w.log 0 := by
  have run : Run World.Step (World.start : World Nat Nat) [.selection (.createSource 7 .core 3 1),
      .selection (.offer 1 "text/plain"), .selection (.setActions 1 (some .copy)), .startCoreDnd 7 1 4,
      .dndMotion (some ⟨5, [3], false, true⟩), .accept 0 (some "text/plain"),
      .setActions 0 (some .copy) (some .copy), .dropDnd, .finish 0] _ :=
    .cons ⟨trivial, rfl⟩ (.cons ⟨trivial, rfl⟩ (.cons ⟨trivial, rfl⟩ (.cons ⟨trivial, rfl⟩ (.cons ⟨trivial, rfl⟩
      (.cons ⟨trivial, rfl⟩ (.cons ⟨trivial, rfl⟩ (.cons ⟨trivial, rfl⟩ (.cons ⟨fun offer drag core ho _ hs hc _ => by
        cases ho
        cases hs
        cases hc
        rfl, rfl⟩ (.nil _)))))))))
  exact ⟨_, run, ((drag_sources_end_once run).1 0 _ rfl).1, by decide⟩

/-- Dropped before it has accepted anything, an offer can still be accepted and finished. -/
theorem finished_after_cancelled : ∃ (w : World Nat Nat) (core : CoreDndSource),
    Run (fun w e w' => World.step w e = some w') World.start [.selection (.createSource 7 .core 3 1),
      .selection (.offer 1 "text/plain"), .selection (.setActions 1 (some .copy)), .startCoreDnd 7 1 4,
      .dndMotion (some ⟨5, [3], false, true⟩), .dropDnd, .accept 0 (some "text/plain"),
      .setActions 0 (some .copy) (some .copy), .finish 0] w
    ∧ w.drags.find 0 = some (.coreSource core) ∧ .cancelled ∈ w.log 0 ∧ .finished ∈ w.log 0
    ∧ .dropPerformed ∉ w.log 0 ∧ ¬WellEnded core.mimeTypes (w.log 0) :=
  ⟨_, _, .cons rfl (.cons rfl (.cons rfl (.cons rfl (.cons rfl (.cons rfl (.cons rfl (.cons rfl (.cons rfl (.nil _))))))))),
    rfl, by decide, by decide, by decide, fun h => absurd h.once (by decide)⟩

end TensorDE.Protocol.Selection
