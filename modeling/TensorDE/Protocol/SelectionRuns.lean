import TensorDE.Lib.Trace
import TensorDE.Protocol.Selection

set_option linter.dupNamespace false

namespace TensorDE.Protocol.Selection

open TensorDE.Maps TensorDE.Trace List

variable {C W : Type}

/-- The requests of the clients through the four protocols, and what else reaches the sources. -/
inductive Event (C W : Type) where
  | createSource (client : C) (kind : SourceKind) (version rounds : Nat)
  | offer (source : SourceToken) (mimeType : String)
  | setActions (source : SourceToken) (actions : Option DndAction)
  | setCoreSelection (client : C) (source : Option SourceToken)
  | setPrimarySelection (client : C) (source : Option SourceToken)
  | setWlrSelection (client : C) (source : Option SourceToken) (target : SelectionTarget)
  | setExtSelection (client : C) (source : Option SourceToken) (target : SelectionTarget)
  | setFocus (focused : Option C)
  | receive (client : C) (offer : SelectionOffer) (mimeType : String)
  | beginCoreDnd (client : C) (source : SourceToken) (origin : W) (drag : DragId)
  | beginLocalDnd (origin : W) (drag : DragId)
  | dndMotion (target : Option (DndTarget W))
  | endDnd
  | disconnect (source : SourceToken)
  | sourceDestroyed (source : SourceToken)

namespace Event

variable [DecidableEq C]

/-- The answer to a request; nothing where the search for a token never ends. -/
def handle (p : SelectionProtocol C W) : Event C W → Option (Reply × SelectionProtocol C W)
  | .createSource client kind version rounds => (p.allocateSource rounds).map fun allocated =>
    (.ok, allocated.2.registerSource allocated.1 client kind version)
  | .offer source mimeType => some (p.offerMime source mimeType)
  | .setActions source actions => some (p.setCoreActions source actions)
  | .setCoreSelection client source => some (p.setCoreSelection client source)
  | .setPrimarySelection client source => some (p.setPrimarySelection client source)
  | .setWlrSelection client source target => some (p.setWlrSelection client source target)
  | .setExtSelection client source target => some (p.setExtSelection client source target)
  | .setFocus focused => some (.ok, p.setFocus focused)
  | .receive client named mimeType => some (p.receive client named mimeType, p)
  | .beginCoreDnd client source origin drag => some (p.beginCoreDnd client source origin drag)
  | .beginLocalDnd origin drag => some (p.beginLocalDnd origin drag)
  | .dndMotion target => some (.ok, p.setTarget target)
  | .endDnd => some (.ok, p.takeDnd.2)
  | .disconnect source => some (.ok, p.disconnect source)
  | .sourceDestroyed source =>
    some (.ok, if (p.sourceDestroyed source).1 then (p.sourceDestroyed source).2.takeDnd.2
      else (p.sourceDestroyed source).2)

/-- The source that a request puts to use. -/
def used : Event C W → Option SourceToken
  | .setCoreSelection _ source | .setPrimarySelection _ source => source
  | .setWlrSelection _ source _ | .setExtSelection _ source _ => source
  | .beginCoreDnd _ source _ _ => some source
  | _ => none

def destroyed : Event C W → Option SourceToken
  | .sourceDestroyed source => some source
  | _ => none

end Event

/-- The MIME types of each source whenever it was put to use, and how often it was sent `cancelled`. -/
structure Session (C W : Type) where
  protocol : SelectionProtocol C W
  uses : SourceToken → List (List String)
  cancels : SourceToken → Nat

namespace Session

def start : Session C W := ⟨SelectionProtocol.new, fun _ => [], fun _ => 0⟩

def noteUses (q : Session C W) (e : Event C W) (reply : Reply) (token : SourceToken) : List (List String) :=
  if e.destroyed = some token then []
  else if reply.error = none ∧ e.used = some token then
    q.uses token ++ ((q.protocol.sources.find token).map Source.mimeTypes).toList
  else q.uses token

def noteCancels (q : Session C W) (e : Event C W) (reply : Reply) (token : SourceToken) : Nat :=
  if e.destroyed = some token then 0 else q.cancels token + reply.sent.count (.cancelled token)

variable [DecidableEq C]

def step (q : Session C W) (e : Event C W) : Option (Reply × Session C W) :=
  (e.handle q.protocol).map fun done => (done.1, ⟨done.2, q.noteUses e done.1, q.noteCancels e done.1⟩)

def Step (q : Session C W) (e : Event C W) (q' : Session C W) : Prop := ∃ reply, q.step e = some (reply, q')

end Session

/-- How often a source must have been cancelled. -/
def lostSlots (p : SelectionProtocol C W) (token : SourceToken) : Option SourceUse → Nat
  | some (.selection target) => if p.selection target = some token then 0 else 1
  | _ => 0

structure Kept (p : SelectionProtocol C W) (uses : SourceToken → List (List String)) (cancels : SourceToken → Nat) :
    Prop where
  slots : ∀ target token, p.selection target = some token →
    ∃ record, p.sources.find token = some record ∧ record.use = some (.selection target)
  drag : ∀ active token, p.activeDnd = some active → active.sourceToken = some token →
    ∃ record, p.sources.find token = some record ∧ record.use = some .dnd
  used : ∀ token record, p.sources.find token = some record →
    uses token = if record.use.isSome then [record.mimeTypes] else []
  cancelled : ∀ token record, p.sources.find token = some record → record.resource.alive = true →
    cancels token = lostSlots p token record.use
  absent : ∀ token, p.sources.find token = none → uses token = [] ∧ cancels token = 0

namespace SelectionProtocol

variable {p : SelectionProtocol C W} {token : SourceToken} {target : SelectionTarget}

@[simp] theorem selection_setSlot (p : SelectionProtocol C W) (source : Option SourceToken) (t target : SelectionTarget) :
    (p.setSlot source target).selection t = if t = target then source else p.selection t := by
  cases t <;> cases target <;> rfl

@[simp] theorem sources_setSlot (p : SelectionProtocol C W) (source : Option SourceToken) (target : SelectionTarget) :
    (p.setSlot source target).sources = p.sources := by
  cases target <;> rfl

@[simp] theorem activeDnd_setSlot (p : SelectionProtocol C W) (source : Option SourceToken) (target : SelectionTarget) :
    (p.setSlot source target).activeDnd = p.activeDnd := by
  cases target <;> rfl

theorem count_cancel (p : SelectionProtocol C W) (token t : SourceToken) : (p.cancel token).count (.cancelled t)
    = if t = token ∧ (p.sources.find t).any (fun record => record.resource.alive) then 1 else 0 := by
  grind [cancel]

theorem replaceSelection_sources (p : SelectionProtocol C W) (target : SelectionTarget) (source : Option SourceToken) :
    (p.replaceSelection target source).2.sources = p.sources := by
  rw [replaceSelection]
  split_ifs <;> simp

theorem replaceSelection_activeDnd (p : SelectionProtocol C W) (target : SelectionTarget) (source : Option SourceToken) :
    (p.replaceSelection target source).2.activeDnd = p.activeDnd := by
  rw [replaceSelection]
  split_ifs <;> simp

theorem replaceSelection_selection (p : SelectionProtocol C W) (target : SelectionTarget) (source : Option SourceToken)
    (t : SelectionTarget) :
    (p.replaceSelection target source).2.selection t = if t = target then source else p.selection t := by
  rw [replaceSelection]
  split_ifs with hsame ht
  · rw [ht, hsame]
  · rfl
  · simp [*]
  · simp [*]

theorem replaceSelection_error (p : SelectionProtocol C W) (target : SelectionTarget) (source : Option SourceToken) :
    (p.replaceSelection target source).1.error = none := by
  rw [replaceSelection]
  split_ifs <;> rfl

theorem count_replaceSelection (p : SelectionProtocol C W) (target : SelectionTarget) {source : Option SourceToken}
    {t : SourceToken} (hne : p.selection target = some t → source ≠ some t) :
    (p.replaceSelection target source).1.sent.count (.cancelled t)
      = if p.selection target = some t ∧ (p.sources.find t).any (fun record => record.resource.alive) then 1 else 0 := by
  rw [replaceSelection]
  split_ifs with hsame hboth hboth
  · exact absurd (hsame ▸ hboth.1) (hne hboth.1)
  · rfl
  · grind [count_cancel]
  · cases hslot : p.selection target with
    | none => rfl
    | some token => grind [count_cancel]

/-- The source, if there is one, has been marked for its slot. -/
def Prepared (p : SelectionProtocol C W) (client : C) (kind : SourceKind) (target : SelectionTarget)
    (source : Option SourceToken) (p' : SelectionProtocol C W) : Prop :=
  source = none ∧ p' = p ∨ ∃ token record, source = some token ∧ p.sources.find token = some record
    ∧ record.use = none ∧ record.client = client ∧ record.kind = kind
    ∧ p' = p.useSource token record (.selection target)

theorem allocateSource_some {rounds : Nat} {allocated : SourceToken × SelectionProtocol C W}
    (h : p.allocateSource rounds = some allocated) :
    p.sources.find allocated.1 = none ∧ ∃ next, allocated.2 = { p with nextSource := next } := by
  induction rounds generalizing p with
  | zero => cases h
  | succ rounds ih =>
    rw [allocateSource] at h
    split_ifs at h with htaken
    · grind
    · cases h
      exact ⟨Option.not_isSome_iff_eq_none.mp htaken, _, rfl⟩

variable [DecidableEq C] {client : C} {kind : SourceKind} {source : Option SourceToken}

theorem setControlSelection_cases (p : SelectionProtocol C W) (client : C) (source : Option SourceToken)
    (kind : SourceKind) (target : SelectionTarget) :
    (∃ error, p.setControlSelection client source kind target = (.setSelection error, p))
    ∨ ∃ p', p.Prepared client kind target source p'
        ∧ p.setControlSelection client source kind target = p'.replaceSelection target source := by
  unfold setControlSelection
  cases source with
  | none => exact .inr ⟨p, .inl ⟨rfl, rfl⟩, rfl⟩
  | some token =>
    cases hr : p.sources.find token with
    | none => exact .inl ⟨_, by simp only [hr]; rfl⟩
    | some record =>
      simp only [hr]
      split_ifs with hwrong hused
      · exact .inl ⟨_, rfl⟩
      · exact .inl ⟨_, rfl⟩
      · obtain ⟨hclient, hkind⟩ := not_or.mp hwrong
        exact .inr ⟨_, .inr ⟨token, record, rfl, hr, Option.not_isSome_iff_eq_none.mp hused, not_not.mp hclient,
          not_not.mp hkind, rfl⟩, rfl⟩

theorem setFocusedSelection_cases (p : SelectionProtocol C W) (client : C) (source : Option SourceToken)
    (kind : SourceKind) (target : SelectionTarget) :
    (∃ error, p.setFocusedSelection client source kind target = (.setSelection error, p))
    ∨ (p.focusedClient = some client ∧ ∃ p', p.Prepared client kind target source p'
        ∧ p.setFocusedSelection client source kind target = p'.replaceSelection target source) := by
  unfold setFocusedSelection
  by_cases hfocus : p.focusedClient = some client
  · rw [if_neg (not_not.mpr hfocus)]
    cases source with
    | none => exact .inr ⟨hfocus, p, .inl ⟨rfl, rfl⟩, rfl⟩
    | some token =>
      cases hr : p.sources.find token with
      | none => exact .inl ⟨_, by simp only [hr]; rfl⟩
      | some record =>
        simp only [hr]
        split_ifs with hwrong hused hactions
        · exact .inl ⟨_, rfl⟩
        · exact .inl ⟨_, rfl⟩
        · exact .inl ⟨_, rfl⟩
        · obtain ⟨hclient, hkind⟩ := not_or.mp hwrong
          exact .inr ⟨hfocus, _, .inr ⟨token, record, rfl, hr, Option.not_isSome_iff_eq_none.mp hused,
            not_not.mp hclient, not_not.mp hkind, rfl⟩, rfl⟩
  · rw [if_pos hfocus]
    exact .inl ⟨_, rfl⟩

end SelectionProtocol

namespace Kept

variable {p : SelectionProtocol C W} {uses uses' : SourceToken → List (List String)}
  {cancels cancels' : SourceToken → Nat} {token : SourceToken} {record record' : Source C} {target : SelectionTarget}

section

variable (h : Kept p uses cancels)
include h

theorem use_of_slot (hr : p.sources.find token = some record)
    (hslot : p.selection target = some token) : record.use = some (.selection target) := by
  grind [h.slots]

/-- A change of a source that keeps its use, and its MIME types once it is used. -/
theorem amended {sources : Map SourceToken (Source C)} (hr : p.sources.find token = some record)
    (hfind : ∀ t, sources.find t = if t = token then some record' else p.sources.find t) (huse : record'.use = record.use)
    (halive : record'.resource.alive = true → record.resource.alive = true)
    (hmime : record.use.isSome → record'.mimeTypes = record.mimeTypes) :
    Kept { p with sources := sources } uses cancels := by
  have hkeep : ∀ t r use, p.sources.find t = some r → r.use = use → ∃ r', sources.find t = some r' ∧ r'.use = use := by
    intro t r use ht hu
    by_cases heq : t = token
    · subst heq
      rw [hr, Option.some.injEq] at ht
      exact ⟨record', (hfind t).trans (if_pos rfl), by rw [huse, ht, hu]⟩
    · exact ⟨r, (hfind t).trans ((if_neg heq).trans ht), hu⟩
  refine ⟨fun target t ht => ?_, fun active t hactive ht => ?_, fun t r ht => ?_, fun t r ht ha => ?_, fun t ht => ?_⟩
  · obtain ⟨r, hfound, hu⟩ := h.slots target t ht
    exact hkeep t r _ hfound hu
  · grind -linarith [h.drag]
  · grind -linarith [h.used]
  · rw [hfind] at ht
    split_ifs at ht with heq
    · cases ht
      rw [heq, h.cancelled token record hr (halive ha), huse]
      rfl
    · exact h.cancelled t r ht ha
  grind -linarith [h.absent]

theorem created (hnew : p.sources.find token = none) (hnone : record.use = none) (next : Nat) :
    Kept { p with nextSource := next, sources := p.sources.insert token record } uses cancels := by
  have hkeep : ∀ t r, p.sources.find t = some r → (p.sources.insert token record).find t = some r := by
    intro t r ht
    rw [Map.find_insert, if_neg]
    · exact ht
    · rintro rfl
      rw [hnew] at ht
      cases ht
  refine ⟨fun target t ht => ?_, fun active t hactive ht => ?_, fun t r ht => ?_, fun t r ht ha => ?_, fun t ht => ?_⟩
  · obtain ⟨r, hfound, hu⟩ := h.slots target t ht
    exact ⟨r, hkeep t r hfound, hu⟩
  · grind [h.drag]
  · grind [Map.find_insert, h.absent, h.used]
  · rw [Map.find_insert] at ht
    split_ifs at ht with heq
    · cases ht
      rw [heq, (h.absent token hnew).2, hnone]
      rfl
    · exact h.cancelled t r ht ha
  grind [Map.find_insert, h.absent]

end

variable {p' : SelectionProtocol C W}

section

variable (h : Kept p uses cancels)
include h

theorem destroyed (hfind : ∀ t, p'.sources.find t = if t = token then none else p.sources.find t)
    (hslot : ∀ target, p'.selection target = if p.selection target = some token then none else p.selection target)
    (hdnd : ∀ active, p'.activeDnd = some active → p.activeDnd = some active ∧ active.sourceToken ≠ some token)
    (huses : ∀ t, uses' t = if t = token then [] else uses t)
    (hcancels : ∀ t, cancels' t = if t = token then 0 else cancels t) : Kept p' uses' cancels' := by
  refine ⟨fun target t ht => ?_, fun active t hactive ht => ?_, fun t r ht => ?_, fun t r ht ha => ?_, fun t ht => ?_⟩
  · grind [h.slots]
  · grind [h.drag]
  · grind [h.used]
  · rw [hfind] at ht
    split_ifs at ht with heq
    rw [hcancels, if_neg heq, h.cancelled t r ht ha]
    cases hu : r.use with
    | none => rfl
    | some use =>
      cases use with
      | dnd => rfl
      | selection target => grind [lostSlots]
  grind [h.absent]

/-- A slot is given to a source that was not used yet, or to none; the source that had it is
cancelled. -/
theorem replaced (target : SelectionTarget)
    (source : Option SourceToken)
    (hsource : ∀ t, source = some t → ∃ r, p.sources.find t = some r ∧ r.use = none)
    (hfind : ∀ t, p'.sources.find t = if source = some t
      then (p.sources.find t).map fun r => { r with use := some (.selection target) } else p.sources.find t)
    (hslot : ∀ t, p'.selection t = if t = target then source else p.selection t) (hdnd : p'.activeDnd = p.activeDnd)
    (huses : ∀ t, uses' t = if source = some t then uses t ++ ((p.sources.find t).map Source.mimeTypes).toList
      else uses t)
    (hcancels : ∀ t, cancels' t = cancels t + if p.selection target = some t
      ∧ (p.sources.find t).any (fun record => record.resource.alive) then 1 else 0) : Kept p' uses' cancels' := by
  -- what was used before is not the source
  have hold : ∀ t r, p.sources.find t = some r → r.use.isSome → p'.sources.find t = some r ∧ source ≠ some t := by
    intro t r ht hu
    have hne : source ≠ some t := by
      intro heq
      obtain ⟨r', hr', hnone⟩ := hsource t heq
      rw [ht, Option.some.injEq] at hr'
      rw [hr', hnone] at hu
      cases hu
    exact ⟨(hfind t).trans ((if_neg hne).trans ht), hne⟩
  refine ⟨fun target' t ht => ?_, fun active t hactive ht => ?_, fun t r ht => ?_, fun t r ht ha => ?_, fun t ht => ?_⟩
  · grind -linarith [h.slots]
  · grind -linarith [h.drag]
  · grind -linarith [h.used]
  · rw [hfind] at ht
    rw [hcancels]
    split_ifs at ht with heq
    · grind +splitImp +splitIndPred [lostSlots]
    · rw [h.cancelled t r ht ha, ht, Option.any_some, ha]
      have hin : p.selection target = some t → r.use = some (.selection target) := h.use_of_slot ht
      cases hu : r.use with
      | none =>
        rw [if_neg fun hboth => by cases hu.symm.trans (hin hboth.1)]
        rfl
      | some use =>
        cases use with
        | dnd =>
          rw [if_neg fun hboth => by cases hu.symm.trans (hin hboth.1)]
          rfl
        | selection target' => grind -linarith [lostSlots]
  grind -linarith [h.absent]

/-- A source that was not used yet goes into a drag. -/
theorem dragged (hr : p.sources.find token = some record) (hnone : record.use = none)
    {active : ActiveDnd W} (hactive : active.sourceToken = some token)
    (huses : ∀ t, uses' t = if token = t then uses t ++ ((p.sources.find t).map Source.mimeTypes).toList else uses t) :
    Kept { p.useSource token record .dnd with activeDnd := some active } uses' cancels := by
  have hfind : ∀ t, (p.useSource token record .dnd).sources.find t
      = if t = token then some { record with use := some .dnd } else p.sources.find t := fun t => Map.find_insert ..
  refine ⟨fun target t ht => ?_, fun active' t hsome ht => ?_, fun t r ht => ?_, fun t r ht ha => ?_, fun t ht => ?_⟩
  · obtain ⟨r, hfound, hu⟩ := h.slots target t ht
    grind
  · grind
  · grind +splitImp +splitIndPred
  · simp only [hfind] at ht
    split_ifs at ht with heq
    · cases ht
      rw [heq, h.cancelled token record hr ha, hnone]
      rfl
    · exact h.cancelled t r ht ha
  grind [h.absent]

theorem redragged (focused : Option C) {activeDnd : Option (ActiveDnd W)}
    (hdnd : ∀ active token, activeDnd = some active → active.sourceToken = some token →
      ∃ active, p.activeDnd = some active ∧ active.sourceToken = some token) :
    Kept { p with focusedClient := focused, activeDnd := activeDnd } uses cancels := by
  refine ⟨h.slots, fun active token hactive htoken => ?_, h.used, h.cancelled, h.absent⟩
  grind [h.drag]

end

end Kept

theorem new_kept : Kept (SelectionProtocol.new : SelectionProtocol C W) (fun _ => []) fun _ => 0 := by
  refine ⟨fun target token ht => ?_, nofun, fun token record hr => ?_, fun token record hr => ?_, fun _ _ => ⟨rfl, rfl⟩⟩
  · cases target <;> cases ht
  · exact absurd hr (by simp [SelectionProtocol.new])
  · exact absurd hr (by simp [SelectionProtocol.new])

namespace Session

variable [DecidableEq C] {q q' : Session C W} {e : Event C W} {reply : Reply}

def Good (q : Session C W) : Prop := Kept q.protocol q.uses q.cancels

omit [DecidableEq C] in
/-- A request that puts no source to use and sends no cancellation leaves the notes alone. -/
theorem good_of_quiet {p' : SelectionProtocol C W} (hdestroyed : e.destroyed = none)
    (hquiet : reply.error = none → e.used = none) (hsent : ∀ token, .cancelled token ∉ reply.sent)
    (h : Kept p' q.uses q.cancels) : Good (⟨p', q.noteUses e reply, q.noteCancels e reply⟩ : Session C W) := by
  have huses : q.noteUses e reply = q.uses := by
    funext token
    rw [noteUses, hdestroyed, if_neg (fun hnone => by cases hnone), if_neg]
    rintro ⟨herror, hused⟩
    rw [hquiet herror] at hused
    cases hused
  have hcancels : q.noteCancels e reply = q.cancels := by
    funext token
    rw [noteCancels, hdestroyed, if_neg (fun hnone => by cases hnone), count_eq_zero.mpr (hsent token)]
    rfl
  rw [huses, hcancels]
  exact h

omit [DecidableEq C] in
variable {source : Option SourceToken} {target : SelectionTarget} {client : C} {kind : SourceKind}

theorem setSelection_good (hq : q.Good) (hused : e.used = source)
    (hdestroyed : e.destroyed = none) {p : SelectionProtocol C W} (hp : q.protocol.Prepared client kind target source p) :
    Good (⟨(p.replaceSelection target source).2, q.noteUses e (p.replaceSelection target source).1,
      q.noteCancels e (p.replaceSelection target source).1⟩ : Session C W) := by
  have hslots : ∀ t, p.selection t = q.protocol.selection t := by
    obtain ⟨-, rfl⟩ | ⟨token, record, -, -, -, -, -, rfl⟩ := hp
    · exact fun t => rfl
    · exact fun t => by cases t <;> rfl
  have hdnd : p.activeDnd = q.protocol.activeDnd := by
    obtain ⟨-, rfl⟩ | ⟨token, record, -, -, -, -, -, rfl⟩ := hp <;> rfl
  have hfind : ∀ t, p.sources.find t = if source = some t
      then (q.protocol.sources.find t).map fun r => { r with use := some (.selection target) }
      else q.protocol.sources.find t := by
    obtain ⟨rfl, rfl⟩ | ⟨token, record, rfl, hr, -, -, -, rfl⟩ := hp
    · simp
    · grind [SelectionProtocol.useSource, Map.find_insert]
  have hsource : ∀ t, source = some t → ∃ r, q.protocol.sources.find t = some r ∧ r.use = none := by
    obtain ⟨rfl, -⟩ | ⟨token, record, rfl, hr, hnone, -, -, -⟩ := hp
    · intro t ht
      cases ht
    · grind
  refine hq.replaced target source hsource (fun t => ?_) (fun t => ?_) ?_ (fun t => ?_) fun t => ?_
  · rw [SelectionProtocol.replaceSelection_sources, hfind]
  · rw [SelectionProtocol.replaceSelection_selection, hslots]
  · rw [SelectionProtocol.replaceSelection_activeDnd, hdnd]
  · simp [noteUses, hdestroyed, SelectionProtocol.replaceSelection_error, hused]
  grind [hq.use_of_slot, noteCancels, SelectionProtocol.count_replaceSelection]

omit [DecidableEq C] in
theorem refused_good (hq : q.Good) (hdestroyed : e.destroyed = none) (error : RequestError) :
    Good (⟨q.protocol, q.noteUses e (.refused error), q.noteCancels e (.refused error)⟩ : Session C W) :=
  good_of_quiet hdestroyed nofun (fun _ => not_mem_nil) hq

omit [DecidableEq C] in
theorem offerMime_good (hq : q.Good) (token : SourceToken) (mimeType : String) :
    Good (⟨(q.protocol.offerMime token mimeType).2,
      q.noteUses (.offer token mimeType) (q.protocol.offerMime token mimeType).1,
      q.noteCancels (.offer token mimeType) (q.protocol.offerMime token mimeType).1⟩ : Session C W) := by
  rw [SelectionProtocol.offerMime]
  cases hr : q.protocol.sources.find token with
  | none => exact refused_good hq rfl _
  | some source =>
    simp only
    split_ifs with hfrozen hnew
    · exact refused_good hq rfl _
    · refine good_of_quiet rfl (fun _ => rfl) (fun _ => not_mem_nil)
        (hq.amended hr (fun t => Map.find_insert ..) rfl id fun hused => absurd hused hfrozen)
    · exact good_of_quiet rfl (fun _ => rfl) (fun _ => not_mem_nil) hq

omit [DecidableEq C] in
theorem setCoreActions_good (hq : q.Good) (token : SourceToken) (actions : Option DndAction) :
    Good (⟨(q.protocol.setCoreActions token actions).2,
      q.noteUses (.setActions token actions) (q.protocol.setCoreActions token actions).1,
      q.noteCancels (.setActions token actions) (q.protocol.setCoreActions token actions).1⟩ : Session C W) := by
  rw [SelectionProtocol.setCoreActions]
  cases hr : q.protocol.sources.find token with
  | none => exact refused_good hq rfl _
  | some source =>
    simp only
    split_ifs with hinvalid
    · exact refused_good hq rfl _
    · cases actions with
      | none => exact refused_good hq rfl _
      | some actions =>
        exact good_of_quiet rfl (fun _ => rfl) (fun _ => not_mem_nil)
          (hq.amended hr (fun t => Map.find_insert ..) rfl id fun _ => rfl)

theorem setFocusedSelection_good (hq : q.Good) (hused : e.used = source) (hdestroyed : e.destroyed = none) :
    Good (⟨(q.protocol.setFocusedSelection client source kind target).2,
      q.noteUses e (q.protocol.setFocusedSelection client source kind target).1,
      q.noteCancels e (q.protocol.setFocusedSelection client source kind target).1⟩ : Session C W) := by
  obtain ⟨error, heq⟩ | ⟨-, p, hp, heq⟩ := q.protocol.setFocusedSelection_cases client source kind target
  · rw [heq]
    exact refused_good hq hdestroyed _
  grind [setSelection_good]

theorem setControlSelection_good (hq : q.Good) (hused : e.used = source) (hdestroyed : e.destroyed = none) :
    Good (⟨(q.protocol.setControlSelection client source kind target).2,
      q.noteUses e (q.protocol.setControlSelection client source kind target).1,
      q.noteCancels e (q.protocol.setControlSelection client source kind target).1⟩ : Session C W) := by
  obtain ⟨error, heq⟩ | ⟨p, hp, heq⟩ := q.protocol.setControlSelection_cases client source kind target
  · rw [heq]
    exact refused_good hq hdestroyed _
  grind [setSelection_good]

theorem beginCoreDnd_good (hq : q.Good) (client : C) (token : SourceToken) (origin : W) (drag : DragId) :
    Good (⟨(q.protocol.beginCoreDnd client token origin drag).2,
      q.noteUses (.beginCoreDnd client token origin drag) (q.protocol.beginCoreDnd client token origin drag).1,
      q.noteCancels (.beginCoreDnd client token origin drag) (q.protocol.beginCoreDnd client token origin drag).1⟩ :
      Session C W) := by
  rw [SelectionProtocol.beginCoreDnd]
  cases hr : q.protocol.sources.find token with
  | none => exact refused_good hq rfl _
  | some record =>
    simp only
    split_ifs with hwrong hused halive
    · exact refused_good hq rfl _
    · exact refused_good hq rfl _
    · exact refused_good hq rfl _
    · have hnone : record.use = none := Option.not_isSome_iff_eq_none.mp (not_or.mp hused).1
      refine hq.dragged hr hnone rfl fun t => ?_
      simp [noteUses, Event.destroyed, Event.used, Reply.ok]

omit [DecidableEq C] in
theorem sourceDestroyed_good (hq : q.Good) (token : SourceToken) :
    Good (⟨if (q.protocol.sourceDestroyed token).1 then (q.protocol.sourceDestroyed token).2.takeDnd.2
        else (q.protocol.sourceDestroyed token).2,
      q.noteUses (.sourceDestroyed token) .ok, q.noteCancels (.sourceDestroyed token) .ok⟩ : Session C W) := by
  have huses : ∀ t, q.noteUses (.sourceDestroyed token) .ok t = if t = token then [] else q.uses t := by
    intro t
    simp [noteUses, Event.destroyed, Event.used, eq_comm]
  have hcancels : ∀ t, q.noteCancels (.sourceDestroyed token) .ok t = if t = token then 0 else q.cancels t := by
    intro t
    simp [noteCancels, Event.destroyed, Reply.ok, eq_comm]
  by_cases hgone : (q.protocol.sources.find token).isNone
  · -- nothing is known of a source that has gone already
    have heq : q.protocol.sourceDestroyed token = (false, q.protocol) := by
      rw [SelectionProtocol.sourceDestroyed, if_pos hgone]
    have habsent := hq.absent token (Option.isNone_iff_eq_none.mp hgone)
    have hu : q.noteUses (.sourceDestroyed token) .ok = q.uses := by
      funext t
      rw [huses]
      split_ifs with ht
      · rw [ht, habsent.1]
      · rfl
    have hc : q.noteCancels (.sourceDestroyed token) .ok = q.cancels := by
      funext t
      rw [hcancels]
      split_ifs with ht
      · rw [ht, habsent.2]
      · rfl
    rw [heq, hu, hc]
    exact hq
  · have hsources : ∀ t, (q.protocol.sources.erase token).find t = if t = token then none else q.protocol.sources.find t :=
      fun t => Map.find_erase ..
    simp only [SelectionProtocol.sourceDestroyed, if_neg hgone]
    by_cases hdnd : (q.protocol.activeDnd.any fun dnd => dnd.sourceToken = some token) = true
    · rw [if_pos hdnd]
      exact hq.destroyed hsources (fun target => by cases target <;> rfl) (fun _ hactive => by cases hactive) huses hcancels
    · rw [if_neg hdnd]
      refine hq.destroyed hsources (fun target => by cases target <;> rfl) (fun active hactive => ⟨hactive, ?_⟩) huses
        hcancels
      grind

theorem step_good (hq : q.Good) (h : q.step e = some (reply, q')) : q'.Good := by
  obtain ⟨done, hhandle, heq⟩ := Option.map_eq_some_iff.mp h
  obtain ⟨rfl, rfl⟩ := Prod.mk.inj heq
  cases e with
  | createSource client kind version rounds =>
    obtain ⟨allocated, hallocated, rfl⟩ := Option.map_eq_some_iff.mp hhandle
    obtain ⟨hnew, next, hnext⟩ := SelectionProtocol.allocateSource_some hallocated
    refine good_of_quiet rfl (fun _ => rfl) (fun _ => not_mem_nil) ?_
    simp only [hnext]
    exact hq.created hnew rfl next
  | offer source mimeType =>
    cases hhandle
    exact offerMime_good hq source mimeType
  | setActions source actions =>
    cases hhandle
    exact setCoreActions_good hq source actions
  | setCoreSelection client source =>
    cases hhandle
    exact setFocusedSelection_good hq rfl rfl
  | setPrimarySelection client source =>
    cases hhandle
    exact setFocusedSelection_good hq rfl rfl
  | setWlrSelection client source target =>
    cases hhandle
    exact setControlSelection_good hq rfl rfl
  | setExtSelection client source target =>
    cases hhandle
    exact setControlSelection_good hq rfl rfl
  | setFocus focused =>
    cases hhandle
    exact good_of_quiet rfl (fun _ => rfl) (fun _ => not_mem_nil)
      (hq.redragged focused fun active token hactive htoken => ⟨active, hactive, htoken⟩)
  | receive client named mimeType =>
    cases hhandle
    refine good_of_quiet rfl (fun _ => rfl) (fun token hmem => ?_) hq
    rw [SelectionProtocol.receive] at hmem
    split_ifs at hmem
    · cases hmem
    · split at hmem
      · cases hmem
      · split_ifs at hmem
        · cases mem_singleton.mp hmem
        · cases hmem
  | beginCoreDnd client source origin drag =>
    cases hhandle
    grind [beginCoreDnd_good]
  | beginLocalDnd origin drag =>
    cases hhandle
    rw [SelectionProtocol.beginLocalDnd]
    split_ifs
    · exact refused_good hq rfl _
    · refine good_of_quiet rfl (fun _ => rfl) (fun _ => not_mem_nil)
        (hq.redragged q.protocol.focusedClient fun active token hactive htoken => ?_)
      cases hactive
      cases htoken
  | dndMotion target =>
    cases hhandle
    refine good_of_quiet rfl (fun _ => rfl) (fun _ => not_mem_nil)
      (hq.redragged q.protocol.focusedClient fun active token hactive htoken => ?_)
    obtain ⟨old, hold, rfl⟩ := Option.map_eq_some_iff.mp hactive
    exact ⟨old, hold, htoken⟩
  | endDnd =>
    cases hhandle
    exact good_of_quiet rfl (fun _ => rfl) (fun _ => not_mem_nil)
      (hq.redragged q.protocol.focusedClient fun _ _ hactive => by cases hactive)
  | disconnect source =>
    cases hhandle
    refine good_of_quiet rfl (fun _ => rfl) (fun _ => not_mem_nil) ?_
    cases hr : q.protocol.sources.find source with
    | none =>
      have hsame : q.protocol.disconnect source = q.protocol := by
        rw [SelectionProtocol.disconnect, Map.modify_eq_self]
        intro record hrecord
        rw [hr] at hrecord
        cases hrecord
      rw [hsame]
      exact hq
    | some record =>
      have hfind : ∀ t, (q.protocol.disconnect source).sources.find t = if t = source
          then some { record with resource := { record.resource with alive := false } }
          else q.protocol.sources.find t := by
        intro t
        rw [SelectionProtocol.disconnect, Map.find_modify]
        by_cases ht : t = source
        · rw [if_pos ht, if_pos ht, ht, hr]
          rfl
        · rw [if_neg ht, if_neg ht]
      exact hq.amended hr hfind rfl (fun halive => by cases halive) fun _ => rfl
  | sourceDestroyed source =>
    cases hhandle
    exact sourceDestroyed_good hq source

theorem run_good {es : List (Event C W)} (run : Run Step start es q) : q.Good :=
  run.invariant (P := Good) (Q := fun _ => True) (fun _ _ _ hq _ hstep => step_good hq hstep.choose_spec) new_kept
    fun _ _ => trivial

end Session

section Answers

variable [DecidableEq C] {p p' : SelectionProtocol C W} {e : Event C W} {reply : Reply}

omit [DecidableEq C] in
theorem send_notMem_replaceSelection (p : SelectionProtocol C W) (target : SelectionTarget) (source : Option SourceToken)
    (token : SourceToken) (mimeType : String) : .send token mimeType ∉ (p.replaceSelection target source).1.sent := by
  intro hmem
  rw [SelectionProtocol.replaceSelection] at hmem
  split_ifs at hmem
  · cases hmem
  · cases hslot : p.selection target with
    | none =>
      rw [hslot] at hmem
      cases hmem
    | some old => grind [SelectionProtocol.cancel]

/-- What every answer but that of a receive has in common: an error changes nothing, and no data is asked for. -/
structure Plain (p : SelectionProtocol C W) (done : Reply × SelectionProtocol C W) : Prop where
  refused : done.1.error ≠ none → done.2 = p ∧ done.1.sent = []
  silent : ∀ token mimeType, .send token mimeType ∉ done.1.sent

omit [DecidableEq C] in
theorem Plain.refuse (error : RequestError) : Plain p (.refused error, p) :=
  ⟨fun _ => ⟨rfl, rfl⟩, fun _ _ => not_mem_nil⟩

omit [DecidableEq C] in
theorem Plain.ok : Plain p (.ok, p') := ⟨fun hne => absurd rfl hne, fun _ _ => not_mem_nil⟩

omit [DecidableEq C] in
theorem Plain.replaceSelection (p₁ : SelectionProtocol C W) (target : SelectionTarget) (source : Option SourceToken) :
    Plain p (p₁.replaceSelection target source) :=
  ⟨fun hne => absurd (p₁.replaceSelection_error target source) hne, send_notMem_replaceSelection p₁ target source⟩

variable (client : C) (source : Option SourceToken) (kind : SourceKind) (target : SelectionTarget)

theorem setFocusedSelection_plain : Plain p (p.setFocusedSelection client source kind target) := by
  obtain ⟨error, heq⟩ | ⟨-, p₁, -, heq⟩ := p.setFocusedSelection_cases client source kind target
  · exact heq ▸ .refuse _
  · exact heq ▸ .replaceSelection p₁ target source

theorem setControlSelection_plain : Plain p (p.setControlSelection client source kind target) := by
  obtain ⟨error, heq⟩ | ⟨p₁, -, heq⟩ := p.setControlSelection_cases client source kind target
  · exact heq ▸ .refuse _
  · exact heq ▸ .replaceSelection p₁ target source

section

variable (h : e.handle p = some (reply, p'))
include h

theorem handle_plain (hreceive : ∀ client named mimeType, e ≠ .receive client named mimeType) : Plain p (reply, p') := by
  cases e with
  | receive client named mimeType => exact absurd rfl (hreceive client named mimeType)
  | createSource client kind version rounds =>
    obtain ⟨allocated, -, heq⟩ := Option.map_eq_some_iff.mp h
    exact heq ▸ .ok
  | offer source mimeType =>
    rw [← Option.some.inj h, SelectionProtocol.offerMime]
    split
    · exact .refuse _
    · split_ifs
      · exact .refuse _
      · exact .ok
      · exact .ok
  | setActions source actions =>
    rw [← Option.some.inj h, SelectionProtocol.setCoreActions]
    split
    · exact .refuse _
    · split_ifs
      · exact .refuse _
      · split
        · exact .refuse _
        · exact .ok
  | setCoreSelection client source =>
    exact Option.some.inj h ▸ setFocusedSelection_plain client source .core .clipboard
  | setPrimarySelection client source =>
    exact Option.some.inj h ▸ setFocusedSelection_plain client source .primary .primary
  | setWlrSelection client source target =>
    exact Option.some.inj h ▸ setControlSelection_plain client source .wlrDataControl target
  | setExtSelection client source target =>
    exact Option.some.inj h ▸ setControlSelection_plain client source .extDataControl target
  | beginCoreDnd client source origin drag =>
    rw [← Option.some.inj h, SelectionProtocol.beginCoreDnd]
    split
    · exact .refuse _
    · split_ifs
      · exact .refuse _
      · exact .refuse _
      · exact .refuse _
      · exact .ok
  | beginLocalDnd origin drag =>
    rw [← Option.some.inj h, SelectionProtocol.beginLocalDnd]
    split_ifs
    · exact .refuse _
    · exact .ok
  | setFocus | dndMotion | endDnd | disconnect | sourceDestroyed => exact Option.some.inj h ▸ .ok

/-- A source is asked for data by the holder of an offer that names it while it has the slot. -/
theorem handle_send {token : SourceToken} {mimeType : String}
    (hsend : .send token mimeType ∈ reply.sent) : ∃ client named, e = .receive client named mimeType
      ∧ named.source = token ∧ p.selection named.target = some token
      ∧ (named.focusedOnly = true → p.focusedClient = some client) := by
  by_cases hreceive : ∃ client named mimeType, e = .receive client named mimeType
  · obtain ⟨client, named, mime, rfl⟩ := hreceive
    cases h
    rw [SelectionProtocol.receive] at hsend
    split_ifs at hsend with hno
    · cases hsend
    · split at hsend
      · cases hsend
      · split_ifs at hsend
        · grind -linarith
        · cases hsend
  · have hplain := handle_plain h fun client named mime he => hreceive ⟨client, named, mime, he⟩
    exact absurd hsend (hplain.silent token mimeType)

theorem handle_refused (herror : reply.error ≠ none) : p' = p ∧ reply.sent = [] := by
  by_cases hreceive : ∃ client named mimeType, e = .receive client named mimeType
  · obtain ⟨client, named, mime, rfl⟩ := hreceive
    cases h
    rw [SelectionProtocol.receive] at herror
    split_ifs at herror
    · exact absurd rfl herror
    · split at herror
      · exact absurd rfl herror
      · split_ifs at herror <;> exact absurd rfl herror
  · exact (handle_plain h fun client named mime he => hreceive ⟨client, named, mime, he⟩).refused herror

end

/-- A selection through the core or the primary protocol is one of the focused client with a source of its own. -/
theorem setFocusedSelection_accepted {client : C} {source : Option SourceToken} {kind : SourceKind}
    {target : SelectionTarget} (h : (p.setFocusedSelection client source kind target).1.error = none) :
    p.focusedClient = some client ∧ ∀ token, source = some token →
      ∃ record, p.sources.find token = some record ∧ record.client = client ∧ record.kind = kind := by
  obtain ⟨error, heq⟩ | ⟨hfocus, p₁, hprepared, -⟩ := p.setFocusedSelection_cases client source kind target
  · rw [heq] at h
    cases h
  · refine ⟨hfocus, fun token htoken => ?_⟩
    obtain ⟨hnone, -⟩ | ⟨token', record, hsome, hr, -, hclient, hkind, -⟩ := hprepared
    · rw [hnone] at htoken
      cases htoken
    grind

end Answers

/-- The selections over every run. `uses` has the MIME types of a source at each of its uses, and `cancels` counts the
cancellations it was sent. -/
theorem selection_authority [DecidableEq C] {q : Session C W} {es : List (Event C W)}
    (run : Run Session.Step Session.start es q) : (∀ target token, q.protocol.selection target = some token → ∃ record,
        q.protocol.sources.find token = some record ∧ record.use = some (.selection target))
    ∧ (∀ token record, q.protocol.sources.find token = some record →
        (q.uses token).length ≤ 1 ∧ ∀ mimeTypes ∈ q.uses token, record.mimeTypes = mimeTypes)
    ∧ (∀ token record target, q.protocol.sources.find token = some record → record.resource.alive = true →
        record.use = some (.selection target) →
        q.cancels token = if q.protocol.selection target = some token then 0 else 1)
    ∧ ∀ e reply q', q.step e = some (reply, q') → (reply.error ≠ none → q'.protocol = q.protocol ∧ reply.sent = [])
        ∧ (∀ client source, e = .setCoreSelection client source ∨ e = .setPrimarySelection client source →
            reply.error = none → q.protocol.focusedClient = some client ∧ ∀ token, source = some token →
              ∃ record, q.protocol.sources.find token = some record ∧ record.client = client)
        ∧ (∀ token mimeType, .send token mimeType ∈ reply.sent → ∃ client named, e = .receive client named mimeType
            ∧ named.source = token ∧ q.protocol.selection named.target = some token
            ∧ (named.focusedOnly = true → q.protocol.focusedClient = some client)) := by
  have hq := Session.run_good run
  refine ⟨hq.slots, fun token record hr => ?_, fun token record target hr halive huse => ?_,
    fun e reply q' hstep => ?_⟩
  · rw [hq.used token record hr]
    grind
  · rw [hq.cancelled token record hr halive, huse]
    rfl
  · obtain ⟨done, hhandle, heq⟩ := Option.map_eq_some_iff.mp hstep
    obtain ⟨rfl, rfl⟩ := Prod.mk.inj heq
    refine ⟨handle_refused hhandle, fun client source he hok => ?_, fun token mimeType => handle_send hhandle⟩
    obtain rfl | rfl := he
    · cases hhandle
      obtain ⟨hfocus, hsource⟩ := setFocusedSelection_accepted hok
      grind
    · cases hhandle
      obtain ⟨hfocus, hsource⟩ := setFocusedSelection_accepted hok
      grind

theorem selection_authority_two_sources : ∃ q : Session Nat Nat,
    Run Session.Step Session.start [.createSource 7 .core 3 1, .createSource 7 .core 3 1, .setFocus (some 7),
      .setCoreSelection 7 (some 1), .setCoreSelection 7 (some 2)] q
      ∧ q.protocol.selection .clipboard = some 2 ∧ q.cancels 1 = 1 := by
  have run : Run Session.Step (Session.start : Session Nat Nat) [.createSource 7 .core 3 1, .createSource 7 .core 3 1,
      .setFocus (some 7), .setCoreSelection 7 (some 1), .setCoreSelection 7 (some 2)] _ :=
    .cons ⟨_, rfl⟩ (.cons ⟨_, rfl⟩ (.cons ⟨_, rfl⟩ (.cons ⟨_, rfl⟩ (.cons ⟨_, rfl⟩ (.nil _)))))
  exact ⟨_, run, rfl, (selection_authority run).2.2.1 1 _ .clipboard rfl rfl rfl⟩

end TensorDE.Protocol.Selection
