import TensorDE.Protocol.Drag

set_option linter.dupNamespace false

namespace TensorDE.Protocol.Selection

open TensorDE.Maps List

variable {C W : Type}

/-- What the source of a drag may have been sent: one ending at most, `dnd_finished` only after the drop was performed,
and requests for data of its MIME types before the ending. -/
structure WellEnded (mimeTypes : List String) (log : List DragEvent) : Prop where
  once : log.count .cancelled + log.count .finished ≤ 1
  performed : ∀ before after, log = before ++ DragEvent.finished :: after → .dropPerformed ∈ before
  asked : ∀ before mimeType after, log = before ++ DragEvent.send mimeType :: after →
    mimeType ∈ mimeTypes ∧ .cancelled ∉ before ∧ .finished ∉ before

theorem append_singleton_eq {X : Type} {log before after : List X} {e x : X} (h : log ++ [e] = before ++ x :: after) :
    (log = before ∧ e = x) ∨ ∃ rest, log = before ++ x :: rest := by
  obtain rfl | ⟨rest, last, rfl⟩ := eq_nil_or_concat after
  · grind [append_inj']
  grind [append_inj']

namespace WellEnded

variable {mimeTypes : List String} {log : List DragEvent} {e : DragEvent}

theorem nil : WellEnded mimeTypes [] := by
  refine ⟨by decide, fun before after heq => ?_, fun before mimeType after heq => ?_⟩
  · cases (append_eq_nil_iff.mp heq.symm).2
  · cases (append_eq_nil_iff.mp heq.symm).2

theorem snoc (h : WellEnded mimeTypes log)
    (hending : e = .cancelled ∨ e = .finished → .cancelled ∉ log ∧ .finished ∉ log)
    (hfinished : e = .finished → .dropPerformed ∈ log)
    (hsend : ∀ mimeType, e = .send mimeType → mimeType ∈ mimeTypes ∧ .cancelled ∉ log ∧ .finished ∉ log) :
    WellEnded mimeTypes (log ++ [e]) := by
  refine ⟨?_, fun before after heq => ?_, fun before mimeType after heq => ?_⟩
  · grind [h.once]
  · obtain ⟨rfl, hlast⟩ | ⟨rest, hrest⟩ := append_singleton_eq heq
    · exact hfinished hlast
    · exact h.performed before rest hrest
  · obtain ⟨rfl, hlast⟩ | ⟨rest, hrest⟩ := append_singleton_eq heq
    · exact hsend mimeType hlast
    · exact h.asked before mimeType rest hrest

theorem not_finished_again (hmem : .cancelled ∈ log) : ¬WellEnded mimeTypes (log ++ [.finished]) := by
  intro h
  grind [h.once]

end WellEnded

structure Told (source : CoreDndSource) (log : List DragEvent) : Prop where
  ended : WellEnded source.mimeTypes log
  cancelled : .cancelled ∈ log → source.cancelled = true
  finished : .finished ∈ log → source.finished = true
  heard : source.cancelled = true → World.hears source = true → .cancelled ∈ log

namespace Told

variable {source : CoreDndSource} {log : List DragEvent} {e : DragEvent}

theorem notMem_cancelled (h : Told source log) (hc : source.cancelled = false) : .cancelled ∉ log := fun hmem =>
  Bool.false_ne_true (hc.symm.trans (h.cancelled hmem))

theorem notMem_finished (h : Told source log) (hf : source.finished = false) : .finished ∉ log := fun hmem =>
  Bool.false_ne_true (hf.symm.trans (h.finished hmem))

theorem snoc (h : Told source log) (hcancelled : e ≠ .cancelled) (hfinished : e ≠ .finished)
    (hsend : ∀ mimeType, e = .send mimeType →
      mimeType ∈ source.mimeTypes ∧ source.cancelled = false ∧ source.finished = false) : Told source (log ++ [e]) := by
  refine ⟨h.ended.snoc ?_ (fun he => absurd he hfinished) ?_, fun hmem => ?_, fun hmem => ?_, fun hc hh => ?_⟩
  · grind
  · grind -linarith [h.notMem_cancelled, h.notMem_finished]
  · grind [h.cancelled]
  · grind [h.finished]
  · exact mem_append_left _ (h.heard hc hh)

theorem cancel (h : Told source log) (hf : source.finished = false) :
    Told { source with cancelled := true }
      (if !source.cancelled ∧ World.hears source then log ++ [.cancelled] else log) := by
  split_ifs with hsent
  · obtain ⟨hc, -⟩ := hsent
    rw [Bool.not_eq_true'] at hc
    refine ⟨h.ended.snoc (fun _ => ⟨h.notMem_cancelled hc, h.notMem_finished hf⟩) nofun nofun, fun _ => rfl,
      fun hmem => ?_, fun _ _ => mem_append_right _ (mem_singleton_self _)⟩
    grind [h.finished]
  · refine ⟨h.ended, fun _ => rfl, h.finished, fun _ hh => ?_⟩
    cases hc : source.cancelled with
    | true => exact h.heard hc hh
    | false => exact absurd ⟨by rw [hc]; rfl, hh⟩ hsent

theorem finish (h : Told source log) (hc : World.hears source = true → source.cancelled = false)
    (hf : source.finished = false) (hperformed : World.hears source = true → .dropPerformed ∈ log) :
    Told { source with finished := true }
      (if !source.finished ∧ World.hears source then log ++ [.finished] else log) := by
  split_ifs with hsent
  · obtain ⟨-, hh⟩ := hsent
    refine ⟨h.ended.snoc (fun _ => ⟨h.notMem_cancelled (hc hh), h.notMem_finished hf⟩) (fun _ => hperformed hh) nofun,
      fun hmem => ?_, fun _ => rfl, fun hc' hh' => mem_append_left _ (h.heard hc' hh')⟩
    grind -linarith [h.cancelled]
  · exact ⟨h.ended, h.cancelled, fun _ => rfl, h.heard⟩

end Told

def ActiveDnd.offer (active : ActiveDnd W) : Option OfferId := active.target.bind DndTarget.offer

namespace World

def Owned (w : World C W) (id : OfferId) (offer : DndOffer) (drag : DragId) : Prop :=
  (offer.state.dropped = false ∧ ∃ active, w.selection.activeDnd = some active ∧ active.source = drag
    ∧ active.offer = some id)
  ∨ (offer.state.dropped = true ∧ ∀ active, w.selection.activeDnd = some active → active.source ≠ drag)

structure Sound (w : World C W) : Prop where
  drags : ∀ drag source, w.drags.find drag = some source → drag < w.nextDrag
  offers : ∀ id offer, w.offers.find id = some offer → id < w.nextOffer
  left : ∀ id ∈ w.left, id < w.nextOffer
  source : ∀ active, w.selection.activeDnd = some active → ∃ source, w.drags.find active.source = some source
    ∧ ∀ core, source = .coreSource core → core.cancelled = false ∧ core.finished = false
  target : ∀ active id, w.selection.activeDnd = some active → active.offer = some id →
    ∃ offer, w.offers.find id = some offer ∧ offer.state.dropped = false
  held : ∀ id offer drag, w.offers.find id = some offer → offer.source = some drag → w.Owned id offer drag
    ∧ ∃ source, w.drags.find drag = some source ∧ ∀ core, source = .coreSource core → core.finished = false
  alone : ∀ id id' offer offer' drag, w.offers.find id = some offer → w.offers.find id' = some offer' →
    offer.source = some drag → offer'.source = some drag → id = id'
  parted : ∀ id offer, w.offers.find id = some offer → id ∈ w.left ∨ offer.state.finished = true →
    offer.state.active = false ∧ offer.source = none
  told : ∀ drag core, w.drags.find drag = some (.coreSource core) → Told core (w.log drag)
  quiet : ∀ drag, w.drags.find drag = none → w.log drag = []

def Performed (w : World C W) : Prop :=
  ∀ id offer drag core, w.offers.find id = some offer → offer.source = some drag → offer.state.dropped = true →
    w.drags.find drag = some (.coreSource core) → core.cancelled = false → hears core = true →
    .dropPerformed ∈ w.log drag

def Withers (f : DndSource W → DndSource W) : Prop :=
  ∀ source core, f source = .coreSource core → ∃ old alive, source = .coreSource old
    ∧ core = { old with alive := alive } ∧ (alive = true → old.alive = true)

theorem hears_of_alive {core : CoreDndSource} {alive : Bool} (halive : alive = true → core.alive = true)
    (h : hears { core with alive := alive } = true) : hears core = true := by
  obtain ⟨ha, hv⟩ := Bool.and_eq_true_iff.mp h
  exact Bool.and_eq_true_iff.mpr ⟨halive ha, hv⟩

variable {w w' : World C W} {drag : DragId} {core core' : CoreDndSource} {id : OfferId} {offer : DndOffer}

namespace Sound

variable {drags : Map DragId (DndSource W)}

theorem amend (h : w.Sound) {log : DragId → List DragEvent} (hcore : w.drags.find drag = some (.coreSource core))
    (hfind : ∀ d, drags.find d = if d = drag then some (.coreSource core') else w.drags.find d)
    (hlog : ∀ d, d ≠ drag → log d = w.log d) (htold : Told core' (log drag))
    (hactive : ∀ active, w.selection.activeDnd = some active → active.source = drag →
      core'.cancelled = false ∧ core'.finished = false)
    (hheld : ∀ id offer, w.offers.find id = some offer → offer.source = some drag → core'.finished = false) :
    Sound { w with drags := drags, log := log } := by
  refine ⟨fun d source hd => ?_, h.offers, h.left, fun active ha => ?_, h.target, fun id offer d ho hs => ?_, h.alone,
    h.parted, fun d c hd => ?_, fun d hd => ?_⟩
  · grind +splitImp +splitIndPred
  · grind [h.source]
  · obtain ⟨howned, source, hsource, hflag⟩ := h.held id offer d ho hs
    refine ⟨howned, ?_⟩
    grind -linarith
  · grind [h.told]
  grind [h.quiet]

theorem tell (h : w.Sound) (hcore : w.drags.find drag = some (.coreSource core)) {e : DragEvent}
    (htold : Told core (w.log drag ++ [e])) : Sound (w.tell drag e) := by
  have hfind : ∀ d, w.drags.find d = if d = drag then some (.coreSource core) else w.drags.find d := by
    intro d
    split_ifs with hd
    · exact hd ▸ hcore
    · rfl
  refine h.amend hcore hfind (fun d hd => if_neg hd) ?_ (fun active ha hs => ?_) fun i x hx hs => ?_
  · rw [if_pos rfl]
    exact htold
  · grind [h.source]
  grind +splitImp +splitIndPred

theorem reoffer (h : w.Sound) (ho : w.offers.find id = some offer) {offer' : DndOffer} {left : List OfferId}
    (hdropped : offer'.state.dropped = offer.state.dropped)
    (hsource : offer'.source = offer.source ∨ offer'.source = none) (hleft : ∀ i ∈ left, i ∈ w.left ∨ i = id)
    (hparted : id ∈ left ∨ offer'.state.finished = true → offer'.state.active = false ∧ offer'.source = none) :
    Sound { w with offers := w.offers.insert id offer', left := left } := by
  have hback : ∀ i x, (w.offers.insert id offer').find i = some x → ∃ y, w.offers.find i = some y
      ∧ x.state.dropped = y.state.dropped ∧ ∀ d, x.source = some d → y.source = some d := by
    intro i x hx
    rw [Map.find_insert] at hx
    split_ifs at hx with hi
    · cases hx
      refine ⟨offer, hi ▸ ho, hdropped, fun d hd => ?_⟩
      obtain hsource | hsource := hsource
      · exact hsource.symm.trans hd
      · cases hsource.symm.trans hd
    · exact ⟨x, hx, rfl, fun d hd => hd⟩
  refine ⟨h.drags, fun i x hx => ?_, fun i hi => ?_, h.source, fun active i ha hi => ?_, fun i x d hx hd => ?_,
    fun i i' x x' d hx hx' hd hd' => ?_, fun i x hx hi => ?_, h.told, h.quiet⟩
  · obtain ⟨y, hy, -⟩ := hback i x hx
    exact h.offers i y hy
  · obtain hi | rfl := hleft i hi
    · exact h.left i hi
    · exact h.offers i offer ho
  · grind -linarith [h.target, Map.find_insert]
  · grind +splitImp +splitIndPred [Owned]
  · grind -linarith [h.alone]
  grind -linarith [Map.find_insert, h.parted]

variable {selection : SelectionProtocol C W}

/-- The drag ends, or goes on without an offer, when none is held but by its drop. -/
theorem detach (h : w.Sound) (hactive : ∀ active, selection.activeDnd = some active → active.offer = none
      ∧ ∃ old, w.selection.activeDnd = some old ∧ active.source = old.source)
    (hfree : ∀ id offer drag, w.offers.find id = some offer → offer.source = some drag → offer.state.dropped = true) :
    Sound { w with selection := selection } := by
  refine ⟨h.drags, h.offers, h.left, fun active ha => ?_, fun active i ha hi => ?_, fun i x d hx hd => ?_, h.alone,
    h.parted, h.told, h.quiet⟩
  · grind [h.source]
  · cases (hactive active ha).1.symm.trans hi
  · obtain ⟨howned, hsource⟩ := h.held i x d hx hd
    refine ⟨.inr ⟨hfree i x d hx hd, fun active ha => ?_⟩, hsource⟩
    obtain ⟨-, old, hold, hsame⟩ := hactive active ha
    obtain ⟨hdrop, -⟩ | ⟨-, hnot⟩ := howned
    · cases hdrop.symm.trans (hfree i x d hx hd)
    · exact hsame ▸ hnot old hold

theorem enter (h : w.Sound) {active active' : ActiveDnd W}
    (hold : w.selection.activeDnd = some active) (hnew : selection.activeDnd = some active')
    (hsame : active'.source = active.source) (htarget : active'.offer = some w.nextOffer)
    (hfree : ∀ id offer drag, w.offers.find id = some offer → offer.source = some drag → offer.state.dropped = true)
    (hdropped : offer.state.dropped = false) (hfinished : offer.state.finished = false)
    (hsource : offer.source = some active.source) :
    Sound { w with
      selection := selection
      offers := w.offers.insert w.nextOffer offer
      nextOffer := w.nextOffer + 1 } := by
  have hfind : ∀ i x, (w.offers.insert w.nextOffer offer).find i = some x →
      (i = w.nextOffer ∧ x = offer) ∨ (i ≠ w.nextOffer ∧ w.offers.find i = some x) := by
    intro i x hx
    rw [Map.find_insert] at hx
    split_ifs at hx with hi
    · exact .inl ⟨hi, (Option.some.inj hx).symm⟩
    · exact .inr ⟨hi, hx⟩
  have hnot : ∀ i x, w.offers.find i = some x → x.source ≠ some active.source := by
    intro i x hx hd
    obtain ⟨hdrop, -⟩ | ⟨-, hnot⟩ := (h.held i x _ hx hd).1
    · cases hdrop.symm.trans (hfree i x _ hx hd)
    · exact hnot active hold rfl
  obtain ⟨source, hsome, hflags⟩ := h.source active hold
  refine ⟨h.drags, fun i x hx => ?_, fun i hi => Nat.lt_succ_of_lt (h.left i hi), fun a ha => ?_, fun a i ha hi => ?_,
    fun i x d hx hd => ?_, fun i i' x x' d hx hx' hd hd' => ?_, fun i x hx hi => ?_, h.told, h.quiet⟩
  · grind +splitImp +splitIndPred
  · grind
  · simp_all
  · obtain ⟨rfl, rfl⟩ | ⟨hi, hx⟩ := hfind i x hx
    · cases hsource.symm.trans hd
      exact ⟨.inl ⟨hdropped, active', hnew, hsame, htarget⟩, source, hsome, fun c hc => (hflags c hc).2⟩
    · obtain ⟨howned, hrest⟩ := h.held i x d hx hd
      refine ⟨.inr ⟨hfree i x d hx hd, fun a ha => ?_⟩, hrest⟩
      grind
  · grind [h.alone]
  grind +splitImp +splitIndPred

theorem drop (h : w.Sound) {active : ActiveDnd W}
    (hactive : w.selection.activeDnd = some active) (hnone : selection.activeDnd = none)
    (htarget : active.offer = some id) (ho : w.offers.find id = some offer) :
    Sound { w with
      selection := selection
      offers := w.offers.insert id { offer with state := { offer.state with dropped := true } } } := by
  have hback : ∀ i x, (w.offers.insert id { offer with state := { offer.state with dropped := true } }).find i = some x →
      ∃ y, w.offers.find i = some y ∧ x.source = y.source ∧ x.state.finished = y.state.finished
        ∧ x.state.active = y.state.active ∧ (i = id → x.state.dropped = true)
        ∧ (i ≠ id → x.state.dropped = y.state.dropped) := by
    intro i x hx
    rw [Map.find_insert] at hx
    split_ifs at hx with hi
    · cases hx
      exact ⟨offer, hi ▸ ho, rfl, rfl, rfl, fun _ => rfl, fun hne => absurd hi hne⟩
    · exact ⟨x, hx, rfl, rfl, rfl, fun heq => absurd heq hi, fun _ => rfl⟩
  have hno : ∀ a, selection.activeDnd ≠ some a := fun a ha => by cases hnone.symm.trans ha
  refine ⟨h.drags, fun i x hx => ?_, h.left, fun a ha => absurd ha (hno a), fun a i ha => absurd ha (hno a),
    fun i x d hx hd => ?_, fun i i' x x' d hx hx' hd hd' => ?_, fun i x hx hi => ?_, h.told, h.quiet⟩
  · obtain ⟨y, hy, -⟩ := hback i x hx
    exact h.offers i y hy
  · obtain ⟨y, hy, hsource, -, -, hdropped, hkept⟩ := hback i x hx
    obtain ⟨howned, hrest⟩ := h.held i y d hy (hsource ▸ hd)
    refine ⟨.inr ⟨?_, fun a ha => absurd ha (hno a)⟩, hrest⟩
    by_cases hi : i = id
    · exact hdropped hi
    · obtain ⟨-, a, ha, -, hai⟩ | ⟨hdrop, -⟩ := howned
      · grind
      · exact (hkept hi).trans hdrop
  · grind -linarith [h.alone]
  grind -linarith [h.parted]

theorem wither (h : w.Sound) {f : DndSource W → DndSource W}
    (hfind : ∀ d, drags.find d = (w.drags.find d).map f) (hf : Withers f) : Sound { w with drags := drags } := by
  have hback : ∀ d source, drags.find d = some source → ∃ old, w.drags.find d = some old ∧ f old = source := by
    intro d source hd
    rw [hfind] at hd
    exact Option.map_eq_some_iff.mp hd
  have hcore : ∀ source core, f source = .coreSource core → ∃ old, source = .coreSource old
      ∧ core.cancelled = old.cancelled ∧ core.finished = old.finished := by
    intro source core hs
    obtain ⟨old, alive, rfl, rfl, -⟩ := hf source core hs
    exact ⟨old, rfl, rfl, rfl⟩
  refine ⟨fun d source hd => ?_, h.offers, h.left, fun active ha => ?_, h.target, fun i x d hx hd => ?_, h.alone, h.parted,
    fun d core hd => ?_, fun d hd => ?_⟩
  · obtain ⟨old, hold, -⟩ := hback d source hd
    exact h.drags d old hold
  · grind [h.source]
  · obtain ⟨howned, source, hs, hflag⟩ := h.held i x d hx hd
    refine ⟨howned, f source, by rw [hfind, hs]; rfl, fun core hc => ?_⟩
    grind
  · obtain ⟨source, hs, hc⟩ := hback d _ hd
    obtain ⟨old, alive, rfl, rfl, halive⟩ := hf source core hc
    have htold := h.told d old hs
    refine ⟨htold.ended, htold.cancelled, htold.finished, fun hcancelled hhears => htold.heard hcancelled ?_⟩
    exact hears_of_alive halive hhears
  grind [h.quiet, Option.map_eq_none_iff]

theorem begin (h : w.Sound) {selection : SelectionProtocol C W} {active : ActiveDnd W} {source : DndSource W}
    (hnone : w.selection.activeDnd = none) (hnew : selection.activeDnd = some active)
    (hsource : active.source = w.nextDrag) (htarget : active.target = none)
    (hfresh : ∀ core, source = .coreSource core → core.cancelled = false ∧ core.finished = false) :
    Sound { w with selection := selection, nextDrag := w.nextDrag + 1, drags := w.drags.insert w.nextDrag source } := by
  have hunused : w.drags.find w.nextDrag = none := by
    cases hd : w.drags.find w.nextDrag with
    | none => rfl
    | some old => exact absurd (h.drags _ old hd) (Nat.lt_irrefl _)
  have hself : (w.drags.insert w.nextDrag source).find w.nextDrag = some source := by rw [Map.find_insert, if_pos rfl]
  have hother : ∀ d, d ≠ w.nextDrag → (w.drags.insert w.nextDrag source).find d = w.drags.find d := fun d hd => by
    rw [Map.find_insert, if_neg hd]
  refine ⟨fun d old hd => ?_, h.offers, h.left, fun a ha => ?_, fun a i ha hi => ?_, fun i x d hx hd => ?_, h.alone,
    h.parted, fun d core hd => ?_, fun d hd => ?_⟩
  · grind +splitImp +splitIndPred
  · grind
  · grind [ActiveDnd.offer]
  · obtain ⟨howned, old, hold, hflag⟩ := h.held i x d hx hd
    have hne : d ≠ w.nextDrag := by
      rintro rfl
      cases hunused.symm.trans hold
    refine ⟨?_, old, (hother d hne).trans hold, hflag⟩
    obtain ⟨-, a, ha, -⟩ | ⟨hdrop, -⟩ := howned
    · cases hnone.symm.trans ha
    · refine .inr ⟨hdrop, fun a ha => ?_⟩
      grind
  · by_cases heq : d = w.nextDrag
    · subst heq
      rw [h.quiet _ hunused]
      cases hself.symm.trans hd
      refine ⟨.nil, fun hmem => absurd hmem List.not_mem_nil, fun hmem => absurd hmem List.not_mem_nil, fun hc => ?_⟩
      cases (hfresh core rfl).1.symm.trans hc
    grind [h.told]
  grind [h.quiet]

theorem reselect (h : w.Sound)
    (hactive : selection.activeDnd = w.selection.activeDnd) : Sound { w with selection := selection } :=
  ⟨h.drags, h.offers, h.left, fun active ha => h.source active (hactive ▸ ha),
    fun active i ha => h.target active i (hactive ▸ ha),
    fun i x d hx hd => by
      have hheld := h.held i x d hx hd
      grind [Owned],
    h.alone, h.parted, h.told, h.quiet⟩

end Sound

theorem start_sound : (start : World C W).Sound := by
  refine ⟨fun d s hd => ?_, fun i x hx => ?_, nofun, nofun, nofun, fun i x d hx => ?_, fun i i' x x' d hx => ?_,
    fun i x hx => ?_, fun d c hd => ?_, fun _ _ => rfl⟩
  · cases (Map.find_empty d).symm.trans hd
  · cases (Map.find_empty i).symm.trans hx
  · cases (Map.find_empty i).symm.trans hx
  · cases (Map.find_empty i).symm.trans hx
  · cases (Map.find_empty i).symm.trans hx
  · cases (Map.find_empty d).symm.trans hd

theorem Performed.mono (h : w.Performed)
    (hoffers : ∀ i x d, w'.offers.find i = some x → x.source = some d → x.state.dropped = true →
      ∃ y, w.offers.find i = some y ∧ y.source = some d ∧ y.state.dropped = true)
    (hcore : ∀ i x d c', w.offers.find i = some x → x.source = some d → w'.drags.find d = some (.coreSource c') →
      c'.cancelled = false → hears c' = true →
      ∃ c, w.drags.find d = some (.coreSource c) ∧ c.cancelled = false ∧ hears c = true)
    (hlog : ∀ d e, e ∈ w.log d → e ∈ w'.log d) : w'.Performed := by
  intro i x d c' hx hd hdropped hc' hcancelled hhears
  obtain ⟨y, hy, hyd, hydropped⟩ := hoffers i x d hx hd hdropped
  obtain ⟨c, hc, hc₁, hc₂⟩ := hcore i y d c' hy hyd hc' hcancelled hhears
  exact hlog d _ (h i y d c hy hyd hydropped hc hc₁ hc₂)

structure Good (w : World C W) : Prop where
  sound : w.Sound
  performed : w.Performed

namespace Good

variable {drags : Map DragId (DndSource W)}

theorem amend (h : w.Good) {log : DragId → List DragEvent} (hcore : w.drags.find drag = some (.coreSource core))
    (hfind : ∀ d, drags.find d = if d = drag then some (.coreSource core') else w.drags.find d)
    (hlog : ∀ d, d ≠ drag → log d = w.log d) (htold : Told core' (log drag))
    (hactive : ∀ active, w.selection.activeDnd = some active → active.source = drag →
      core'.cancelled = false ∧ core'.finished = false)
    (hheld : ∀ id offer, w.offers.find id = some offer → offer.source = some drag → core'.finished = false)
    (hcancelled : core'.cancelled = false → core.cancelled = false) (hhears : hears core' = hears core)
    (hmore : ∀ e ∈ w.log drag, e ∈ log drag) : Good { w with drags := drags, log := log } := by
  refine ⟨h.sound.amend hcore hfind hlog htold hactive hheld, h.performed.mono (fun i x d hx hd hdrop => ⟨x, hx, hd, hdrop⟩)
    (fun i x d c' _ _ hc' hc₁ hc₂ => ?_) fun d e he => ?_⟩
  · grind -linarith
  grind -linarith

theorem tell (h : w.Good) (hcore : w.drags.find drag = some (.coreSource core)) {e : DragEvent}
    (htold : Told core (w.log drag ++ [e])) : Good (w.tell drag e) := by
  refine ⟨h.sound.tell hcore htold, h.performed.mono (fun i x d hx hd hdrop => ⟨x, hx, hd, hdrop⟩)
    (fun i x d c' _ _ hc' hc₁ hc₂ => ⟨c', hc', hc₁, hc₂⟩) fun d e' he' => ?_⟩
  change e' ∈ if d = drag then w.log d ++ [e] else w.log d
  grind

theorem reoffer (h : w.Good) (ho : w.offers.find id = some offer) {offer' : DndOffer} {left : List OfferId}
    (hdropped : offer'.state.dropped = offer.state.dropped)
    (hsource : offer'.source = offer.source ∨ offer'.source = none) (hleft : ∀ i ∈ left, i ∈ w.left ∨ i = id)
    (hparted : id ∈ left ∨ offer'.state.finished = true → offer'.state.active = false ∧ offer'.source = none) :
    Good { w with offers := w.offers.insert id offer', left := left } := by
  refine ⟨h.sound.reoffer ho hdropped hsource hleft hparted, h.performed.mono (fun i x d hx hd hdrop => ?_)
    (fun i x d c' _ _ hc' hc₁ hc₂ => ⟨c', hc', hc₁, hc₂⟩) fun d e he => he⟩
  rw [Map.find_insert] at hx
  split_ifs at hx with hi
  · cases hx
    refine ⟨offer, hi ▸ ho, ?_, hdropped ▸ hdrop⟩
    obtain hsource | hsource := hsource
    · exact hsource ▸ hd
    · cases hsource.symm.trans hd
  · exact ⟨x, hx, hd, hdrop⟩

theorem restate (h : w.Good) (ho : w.offers.find id = some offer) {state : DndOfferState}
    (hdropped : state.dropped = offer.state.dropped) (hfinished : state.finished = offer.state.finished)
    (hactive : state.active = true → offer.state.active = true) :
    Good (w.setOffer id { offer with state := state }) := by
  refine h.reoffer ho hdropped (.inl rfl) (fun i hi => .inl hi) fun hover => ?_
  grind -linarith [h.sound.parted]

variable {selection : SelectionProtocol C W}

theorem detach (h : w.Good) (hactive : ∀ active, selection.activeDnd = some active → active.offer = none
      ∧ ∃ old, w.selection.activeDnd = some old ∧ active.source = old.source)
    (hfree : ∀ id offer drag, w.offers.find id = some offer → offer.source = some drag → offer.state.dropped = true) :
    Good { w with selection := selection } :=
  ⟨h.sound.detach hactive hfree, h.performed⟩

theorem enter (h : w.Good) {active active' : ActiveDnd W}
    (hold : w.selection.activeDnd = some active) (hnew : selection.activeDnd = some active')
    (hsame : active'.source = active.source) (htarget : active'.offer = some w.nextOffer)
    (hfree : ∀ id offer drag, w.offers.find id = some offer → offer.source = some drag → offer.state.dropped = true)
    (hdropped : offer.state.dropped = false) (hfinished : offer.state.finished = false)
    (hsource : offer.source = some active.source) :
    Good { w with
      selection := selection
      offers := w.offers.insert w.nextOffer offer
      nextOffer := w.nextOffer + 1 } := by
  refine ⟨h.sound.enter hold hnew hsame htarget hfree hdropped hfinished hsource,
    h.performed.mono (fun i x d hx hd hdrop => ?_) (fun i x d c' _ _ hc' hc₁ hc₂ => ⟨c', hc', hc₁, hc₂⟩) fun d e he => he⟩
  grind [Map.find_insert]

theorem drop (h : w.Good) {active : ActiveDnd W} (hs : w'.Sound) (hactive : w.selection.activeDnd = some active)
    (htarget : active.offer = some id) (ho : w.offers.find id = some offer)
    (hoffers : w'.offers = w.offers.insert id { offer with state := { offer.state with dropped := true } })
    (hrest : ∀ d, d ≠ active.source → w'.drags.find d = w.drags.find d ∧ w'.log d = w.log d)
    (htold : ∀ core, w'.drags.find active.source = some (.coreSource core) → core.cancelled = false → hears core = true →
      .dropPerformed ∈ w'.log active.source) : w'.Good := by
  refine ⟨hs, fun i x d c hx hd hdrop hc hcancelled hhears => ?_⟩
  by_cases heq : d = active.source
  · grind -linarith
  · obtain ⟨hdrags, hlog⟩ := hrest d heq
    rw [hdrags] at hc
    rw [hlog]
    rw [hoffers, Map.find_insert] at hx
    split_ifs at hx with hi
    · cases hx
      obtain ⟨y, hy, hundropped⟩ := h.sound.target active id hactive htarget
      cases ho.symm.trans hy
      obtain ⟨-, a, ha, rfl, -⟩ | ⟨hdropped, -⟩ := (h.sound.held id offer d ho hd).1
      · grind
      · cases hundropped.symm.trans hdropped
    · exact h.performed i x d c hx hd hdrop hc hcancelled hhears

theorem wither (h : w.Good) {f : DndSource W → DndSource W}
    (hfind : ∀ d, drags.find d = (w.drags.find d).map f) (hf : Withers f) : Good { w with drags := drags } := by
  refine ⟨h.sound.wither hfind hf, h.performed.mono (fun i x d hx hd hdrop => ⟨x, hx, hd, hdrop⟩)
    (fun i x d c' _ _ hc' hc₁ hc₂ => ?_) fun d e he => he⟩
  rw [hfind] at hc'
  obtain ⟨source, hsource, hfs⟩ := Option.map_eq_some_iff.mp hc'
  obtain ⟨old, alive, rfl, rfl, halive⟩ := hf source c' hfs
  grind -linarith [hears_of_alive]

theorem begin (h : w.Good) {selection : SelectionProtocol C W} {active : ActiveDnd W} {source : DndSource W}
    (hnone : w.selection.activeDnd = none) (hnew : selection.activeDnd = some active)
    (hsource : active.source = w.nextDrag) (htarget : active.target = none)
    (hfresh : ∀ core, source = .coreSource core → core.cancelled = false ∧ core.finished = false) :
    Good { w with selection := selection, nextDrag := w.nextDrag + 1, drags := w.drags.insert w.nextDrag source } := by
  refine ⟨h.sound.begin hnone hnew hsource htarget hfresh, h.performed.mono (fun i x d hx hd hdrop => ⟨x, hx, hd, hdrop⟩)
    (fun i x d c' hx hd hc' hc₁ hc₂ => ?_) fun d e he => he⟩
  grind +splitImp +splitIndPred [Map.find_insert]

theorem reselect (h : w.Good)
    (hactive : selection.activeDnd = w.selection.activeDnd) : Good { w with selection := selection } :=
  ⟨h.sound.reselect hactive, h.performed⟩

end Good

theorem start_good : (start : World C W).Good :=
  ⟨start_sound, fun i _ _ _ hx => by cases (Map.find_empty i).symm.trans hx⟩

end World

end TensorDE.Protocol.Selection
