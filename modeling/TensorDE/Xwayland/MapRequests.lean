import TensorDE.Lib.Maps
import TensorDE.Lib.Trace

set_option linter.dupNamespace false

namespace TensorDE.Xwayland.MapRequests

open Maps Trace List

inductive PropertyQuery where
  | transientFor
  | normalHints
  | netState
  | wmHints
  | protocols
  | title
  | windowClass
deriving DecidableEq

/-- A change of these is reported to the compositor. -/
def PropertyQuery.reported : PropertyQuery → Bool
  | .transientFor | .normalHints | .title | .windowClass => true
  | _ => false

structure Target where
  window : Nat
  generation : Nat
deriving DecidableEq

variable {V : Type}

/-- The values of the properties are of one type; the two bit sets are sets of queries. -/
structure SurfaceState (V : Type) where
  mapped : Bool
  property : PropertyQuery → V
  mapRequestInFlight : Bool
  initialQueryPending : Bool
  mapResultReady : Bool
  pendingProperties : Finset PropertyQuery
  dirtyProperties : Finset PropertyQuery

namespace SurfaceState

def new (property : PropertyQuery → V) : SurfaceState V := ⟨false, property, false, false, false, ∅, ∅⟩

variable (s : SurfaceState V)

def cancelMapRequest : SurfaceState V :=
  { s with mapRequestInFlight := false, initialQueryPending := false, mapResultReady := false }

def markMapped (mapped : Bool) : SurfaceState V := { s.cancelMapRequest with mapped := mapped }

def beginMapRequest : Bool × SurfaceState V :=
  if s.mapRequestInFlight then (false, s)
  else (true, { s with mapRequestInFlight := true, initialQueryPending := true })

def schedulePropertyQuery (query : PropertyQuery) : Bool × SurfaceState V :=
  if query ∈ s.pendingProperties then (false, { s with dirtyProperties := insert query s.dirtyProperties })
  else (true, { s with pendingProperties := insert query s.pendingProperties })

/-- `none` for a completion that nobody waits for; `true` asks for one more query. -/
def completePropertyQuery (query : PropertyQuery) : Option (Bool × SurfaceState V) :=
  if query ∉ s.pendingProperties then none
  else if query ∈ s.dirtyProperties then some (true, { s with dirtyProperties := s.dirtyProperties.erase query })
  else some (false, { s with pendingProperties := s.pendingProperties.erase query })

def takeCompletedMapRequest : Bool × SurfaceState V :=
  if s.mapResultReady = false ∨ s.pendingProperties ≠ ∅ then (false, s) else (true, { s with mapResultReady := false })

def applyProperty (query : PropertyQuery) (value : V) : SurfaceState V :=
  { s with property := Function.update s.property query value }

/-- What `apply_initial_properties` does before it takes the map request. -/
def applyInitialProperties (values : PropertyQuery → V) : SurfaceState V :=
  { s with initialQueryPending := false, property := values, mapResultReady := true }

end SurfaceState

structure X11Surface (V : Type) where
  target : Target
  state : SurfaceState V

inductive XwmEvent where
  | newWindow (window : Target)
  | mapRequested (window : Target)
  | mapped (window : Target)
  | unmapped (window : Target)
  | destroyed (window : Target)
  | propertyChanged (window : Target) (query : PropertyQuery)
deriving DecidableEq

/-- A request that the worker has not answered; `none` asks for the initial properties. -/
structure Request where
  target : Target
  query : Option PropertyQuery
  sentAt : Nat
deriving DecidableEq

/-- What has happened to the map requests of a window; a publication with the number of its property queries that are
outstanding then. -/
inductive MapStep where
  | accepted
  | applied
  | published (outstanding : Nat)
deriving DecidableEq

/-- The window manager and the requests to its worker; `clock`, `notified` and `steps` keep the history: the number of
events, when the last change of a property was processed, and the steps of the map requests with the latest first. -/
structure X11Wm (V : Type) where
  windows : Map Nat (X11Surface V)
  nextWindowGeneration : Nat
  pendingEvents : List XwmEvent
  requests : List Request
  clock : Nat
  notified : Target → PropertyQuery → Nat
  steps : Target → List MapStep

def maxPendingXwmEvents : Nat := 64

def asks (target : Target) (query : PropertyQuery) (r : Request) : Bool := r.target = target ∧ r.query = some query

namespace X11Wm

def init : X11Wm V := ⟨.empty, 1, [], [], 0, fun _ _ => 0, fun _ => []⟩

variable (s : X11Wm V)

def put (w : X11Surface V) : X11Wm V := { s with windows := s.windows.insert w.target.window w }

def record (t : Target) (step : MapStep) : X11Wm V :=
  { s with steps := Function.update s.steps t (step :: s.steps t) }

def pushEvent (event : XwmEvent) : Option (X11Wm V) :=
  if s.pendingEvents.length ≥ maxPendingXwmEvents then none
  else some { s with pendingEvents := s.pendingEvents ++ [event] }

variable (room : Bool)

/-- `room` says whether the channel to the worker takes the request. -/
def submitPropertyRequest (s : X11Wm V) (t : Target) (query : Option PropertyQuery) : Option (X11Wm V) :=
  if room then some { s with requests := s.requests ++ [⟨t, query, s.clock⟩] } else none

/-- The number of property queries of a window that are outstanding. -/
def outstanding (t : Target) : Nat := s.requests.countP fun r => r.target = t ∧ r.query.isSome

def publishCompletedMapRequest (w : X11Surface V) : Option (X11Wm V) :=
  match w.state.takeCompletedMapRequest with
  | (false, _) => some s
  | (true, state) =>
    ((s.put ⟨w.target, state⟩).record w.target (.published (s.outstanding w.target))).pushEvent (.mapRequested w.target)

def createWindow (property : PropertyQuery → V) (s : X11Wm V) (id : Nat) : Option (X11Wm V) :=
  if (s.windows.find id).isSome ∨ s.nextWindowGeneration + 1 ≥ 2 ^ 64 then none
  else
    { s.put ⟨⟨id, s.nextWindowGeneration⟩, .new property⟩ with
      nextWindowGeneration := s.nextWindowGeneration + 1 }.pushEvent (.newWindow ⟨id, s.nextWindowGeneration⟩)

def mapRequest (s : X11Wm V) (id : Nat) : Option (X11Wm V) :=
  (s.windows.find id).bind fun w =>
    match w.state.beginMapRequest with
    | (false, _) => some s
    | (true, state) => submitPropertyRequest room ((s.put ⟨w.target, state⟩).record w.target .accepted) w.target none

def propertyNotify (s : X11Wm V) (id : Nat) (query : PropertyQuery) : Option (X11Wm V) :=
  match s.windows.find id with
  | none => some s
  | some w =>
    let noted := { s with
      notified := Function.update s.notified w.target (Function.update (s.notified w.target) query s.clock) }
    match w.state.schedulePropertyQuery query with
    | (false, state) => some (noted.put ⟨w.target, state⟩)
    | (true, state) => submitPropertyRequest room (noted.put ⟨w.target, state⟩) w.target (some query)

/-- An answer is told from one for an earlier window by the generation. -/
def applyPropertyResult (s : X11Wm V) (t : Target) (query : Option PropertyQuery)
    (values : PropertyQuery → V) : Option (X11Wm V) :=
  match s.windows.find t.window with
  | none => some s
  | some w =>
    if w.target ≠ t then some s
    else
      match query with
      | none =>
        if w.state.initialQueryPending = false then some s
        else
          ((s.put ⟨t, w.state.applyInitialProperties values⟩).record t .applied).publishCompletedMapRequest
            ⟨t, w.state.applyInitialProperties values⟩
      | some query =>
        match w.state.completePropertyQuery query with
        | none => some s
        | some (true, state) => submitPropertyRequest room (s.put ⟨t, state⟩) t (some query)
        | some (false, state) =>
          let s := s.put ⟨t, state.applyProperty query (values query)⟩
          (if query.reported then s.pushEvent (.propertyChanged t query) else some s).bind fun s =>
            s.publishCompletedMapRequest ⟨t, state.applyProperty query (values query)⟩

end X11Wm

/-- An X11 event, an answer of the worker with the values that it read, or what the compositor does with an event. -/
inductive Event (V : Type) where
  | createNotify (id : Nat)
  | mapRequest (id : Nat)
  | mapNotify (id : Nat)
  | unmapNotify (id : Nat)
  | destroyNotify (id : Nat)
  | propertyNotify (id : Nat) (query : Option PropertyQuery)
  | result (values : PropertyQuery → V)
  | nextEvent
  | setMapped (id : Nat) (mapped : Bool)
  | cancelMapRequest (id : Nat)

namespace X11Wm

def change (s : X11Wm V) (id : Nat) (f : SurfaceState V → SurfaceState V) (event : Option (Target → XwmEvent)) :
    Option (X11Wm V) :=
  match s.windows.find id with
  | none => some s
  | some w =>
    match event with
    | none => some (s.put ⟨w.target, f w.state⟩)
    | some event => (s.put ⟨w.target, f w.state⟩).pushEvent (event w.target)

/-- One event; an error stops the window manager. -/
def handle (property : PropertyQuery → V) (room : Bool) (s : X11Wm V) : Event V → Option (X11Wm V)
  | .createNotify id => s.createWindow property id
  | .mapRequest id => s.mapRequest room id
  | .mapNotify id => s.change id (·.markMapped true) (some .mapped)
  | .unmapNotify id => s.change id (·.markMapped false) (some .unmapped)
  | .destroyNotify id =>
    match s.windows.find id with
    | none => some s
    | some w => { s with windows := s.windows.erase id }.pushEvent (.destroyed w.target)
  | .propertyNotify id query => query.elim (some s) (s.propertyNotify room id)
  | .result values =>
    match s.requests with
    | [] => none
    | r :: rest => { s with requests := rest }.applyPropertyResult room r.target r.query values
  | .nextEvent => some { s with pendingEvents := s.pendingEvents.tail }
  | .setMapped id mapped => s.change id (·.markMapped mapped) none
  | .cancelMapRequest id => s.change id SurfaceState.cancelMapRequest none

end X11Wm

/-- A step in which the worker answers the oldest request with values read after it was sent. -/
def Step (readAt : V → Nat) (property : PropertyQuery → V) (s : X11Wm V) (e : Bool × Event V) (t : X11Wm V) : Prop :=
  (s.handle property e.1 e.2).map (fun s => { s with clock := s.clock + 1 }) = some t ∧
  ∀ values r rest, e.2 = .result values → s.requests = r :: rest → ∀ p, r.sentAt ≤ readAt (values p)

/-- Every publication follows the initial properties of an accepted request, with no property query outstanding. -/
def Answered : List MapStep → Prop
  | [] => True
  | .accepted :: steps => Answered steps
  | .applied :: steps => steps.head? = some .accepted ∧ Answered steps
  | .published outstanding :: steps => outstanding = 0 ∧ steps.head? = some .applied ∧ Answered steps

/-! One window with the requests that were sent for it. -/

structure WindowSound (readAt : V → Nat) (queue : List Request) (notified : PropertyQuery → Nat) (steps : List MapStep)
    (clock : Nat) (s : SurfaceState V) : Prop where
  pending : ∀ p, queue.countP (·.query = some p) = if p ∈ s.pendingProperties then 1 else 0
  dirty : ∀ p ∈ s.dirtyProperties, p ∈ s.pendingProperties
  notified_le : ∀ p, notified p ≤ clock
  awaited : s.initialQueryPending → s.mapRequestInFlight ∧ s.mapResultReady = false ∧ steps.head? = some .accepted
  ready : s.mapResultReady → s.mapRequestInFlight ∧ steps.head? = some .applied
  read : ∀ p, p ∉ s.pendingProperties → notified p ≤ readAt (s.property p)
  asked : ∀ r ∈ queue, ∀ p, r.query = some p → p ∉ s.dirtyProperties → notified p ≤ r.sentAt
  initial : ∀ pre (r : Request) post, queue = pre ++ r :: post → r.query = none → ∀ p, r.sentAt < notified p →
    p ∈ s.dirtyProperties ∨ ∃ q ∈ post, q.query = some p

namespace WindowSound

variable {readAt : V → Nat} {queue rest : List Request} {notified : PropertyQuery → Nat} {steps : List MapStep}
  {clock : Nat} {s : SurfaceState V} {r : Request} {p : PropertyQuery}

section

variable (h : WindowSound readAt queue notified steps clock s)
include h

theorem later : WindowSound readAt queue notified steps (clock + 1) s :=
  { h with notified_le := fun p => (h.notified_le p).trans (Nat.le_succ _) }

theorem cancel : WindowSound readAt queue notified steps clock s.cancelMapRequest :=
  ⟨h.pending, h.dirty, h.notified_le, (fun ha => by cases ha), (fun hr => by cases hr), h.read, h.asked, h.initial⟩

theorem mark (mapped : Bool) : WindowSound readAt queue notified steps clock (s.markMapped mapped) :=
  ⟨h.pending, h.dirty, h.notified_le, h.cancel.awaited, h.cancel.ready, h.read, h.asked, h.initial⟩

end

theorem split_append {pre post : List Request} {q : Request} (h : queue ++ [q] = pre ++ r :: post) :
    post = [] ∧ r = q ∨ ∃ post', post = post' ++ [q] ∧ queue = pre ++ r :: post' := by
  rcases eq_nil_or_concat post with rfl | ⟨post', q', rfl⟩
  · grind [append_inj_right']
  grind [append_inj']

variable {t : Target}

theorem accept (h : WindowSound readAt queue notified steps clock s) (hidle : s.mapRequestInFlight = false) :
    WindowSound readAt (queue ++ [⟨t, none, clock⟩]) notified (.accepted :: steps) clock s.beginMapRequest.2 := by
  have hready : s.mapResultReady = false := by
    by_contra hready
    exact absurd (h.ready (by simpa using hready)).1 (by simp [hidle])
  rw [SurfaceState.beginMapRequest, if_neg (by simp [hidle])]
  refine ⟨fun p => ?_, h.dirty, h.notified_le, fun _ => ⟨rfl, hready, rfl⟩, fun hr => ?_, h.read, ?_, ?_⟩
  · rw [countP_append, h.pending p]
    simp
  · exact absurd hr (by simp [hready])
  · grind +splitImp +splitIndPred
  · intro pre r post hqueue hr p hp
    rcases split_append hqueue with ⟨-, rfl⟩ | ⟨post', rfl, hsplit⟩
    · exact absurd (h.notified_le p) (by simpa using hp)
    grind [h.initial]

/-- A query that is sent now, in place of one that `old` holds, asks for everything that was processed. -/
theorem send {old : List Request} (h : WindowSound readAt (old ++ queue) notified steps clock s)
    (hold : ∀ r ∈ old, r.query = some p) (hqueue : ∀ r ∈ queue, r.query ≠ some p) {value : Nat} (hvalue : value ≤ clock) :
    WindowSound readAt (queue ++ [⟨t, some p, clock⟩]) (Function.update notified p value) steps clock
      { s with pendingProperties := insert p s.pendingProperties, dirtyProperties := s.dirtyProperties.erase p } := by
  have hother : ∀ {q}, q ≠ p → Function.update notified p value q = notified q := fun hq => Function.update_of_ne hq _ _
  have hle : ∀ q, Function.update notified p value q ≤ clock := fun q => by
    by_cases hq : q = p
    · simpa [hq] using hvalue
    · rw [hother hq]
      exact h.notified_le q
  refine ⟨fun q => ?_, fun q hq => ?_, hle, h.awaited, h.ready, fun q hq => ?_, fun r hr q hrq hq => ?_, ?_⟩
  · grind [countP_eq_zero, h.pending]
  · exact Finset.mem_insert_of_mem (h.dirty q (Finset.mem_of_mem_erase hq))
  · rw [Finset.mem_insert, not_or] at hq
    rw [hother hq.1]
    exact h.read q hq.2
  · rcases mem_append.mp hr with hr | hr
    · have hne : q ≠ p := fun hqp => hqueue r hr (hqp ▸ hrq)
      rw [hother hne]
      exact h.asked r (mem_append_right _ hr) q hrq fun hd => hq (Finset.mem_erase.mpr ⟨hne, hd⟩)
    grind
  · intro pre r post hgrown hr q hq
    rcases split_append hgrown with ⟨-, rfl⟩ | ⟨post', rfl, hsplit⟩
    · cases hr
    · by_cases hqp : q = p
      · exact .inr ⟨⟨t, some p, clock⟩, by simp, by rw [hqp]⟩
      grind -linarith [h.initial]

section

variable (h : WindowSound readAt queue notified steps clock s)
include h

theorem not_asked (hp : p ∉ s.pendingProperties) : ∀ r ∈ queue, r.query ≠ some p := by
  grind [h.pending]

theorem notify (hp : p ∉ s.pendingProperties) :
    WindowSound readAt (queue ++ [⟨t, some p, clock⟩]) (Function.update notified p clock) steps clock
      (s.schedulePropertyQuery p).2 := by
  rw [SurfaceState.schedulePropertyQuery, if_neg hp]
  have hsent := (show WindowSound readAt ([] ++ queue) notified steps clock s from h).send (t := t) (by simp)
    (h.not_asked hp) le_rfl
  grind [Finset.erase_eq_of_notMem, h.dirty]

theorem notifyDirty (hp : p ∈ s.pendingProperties) :
    WindowSound readAt queue (Function.update notified p clock) steps clock (s.schedulePropertyQuery p).2 := by
  rw [SurfaceState.schedulePropertyQuery, if_pos hp]
  have hother : ∀ {q}, q ≠ p → Function.update notified p clock q = notified q := fun hq => Function.update_of_ne hq _ _
  refine ⟨h.pending, fun q hq => ?_, fun q => ?_, h.awaited, h.ready, fun q hq => ?_, fun r hr q hrq hq => ?_, ?_⟩
  · grind [h.dirty]
  · by_cases hq : q = p
    · simp [hq]
    · rw [hother hq]
      exact h.notified_le q
  · rw [hother fun hqp => hq (hqp ▸ hp)]
    exact h.read q hq
  · simp only [Finset.mem_insert, not_or] at hq
    rw [hother hq.1]
    exact h.asked r hr q hrq hq.2
  grind [h.initial]

end

section

variable (h : WindowSound readAt (r :: rest) notified steps clock s)
include h

theorem popInitial (hr : r.query = none) : WindowSound readAt rest notified steps clock s :=
  { h with
    pending := fun p => by simpa [hr] using h.pending p
    asked := fun q hq => h.asked q (.tail _ hq)
    initial := fun pre q post hqueue => h.initial (r :: pre) q post (by rw [hqueue, cons_append]) }

theorem applyInitial (hr : r.query = none)
    (hwait : s.initialQueryPending) {values : PropertyQuery → V} (hread : ∀ p, r.sentAt ≤ readAt (values p)) :
    WindowSound readAt rest notified (.applied :: steps) clock (s.applyInitialProperties values) :=
  { h.popInitial hr with
    awaited := fun ha => by cases ha
    ready := fun _ => ⟨(h.awaited hwait).1, rfl⟩
    read := fun p hp => by
      -- a change since the request was sent is still being asked for
      have hsent : notified p ≤ r.sentAt := by
        by_contra hlt
        rcases h.initial [] r rest rfl hr p (by omega) with hd | ⟨q, hq, hqp⟩
        · exact hp (h.dirty p hd)
        · exact h.not_asked hp q (.tail _ hq) hqp
      exact hsent.trans (hread p) }

theorem alone (hr : r.query = some p) : p ∈ s.pendingProperties ∧ ∀ q ∈ rest, q.query ≠ some p := by
  grind [h.pending, countP_eq_zero]

theorem complete (hr : r.query = some p)
    (hclean : p ∉ s.dirtyProperties) {value : V} (hread : r.sentAt ≤ readAt value) :
    WindowSound readAt rest notified steps clock
      ({ s with pendingProperties := s.pendingProperties.erase p }.applyProperty p value) := by
  refine ⟨fun q => ?_, fun q hq => ?_, h.notified_le, h.awaited, h.ready, fun q hq => ?_,
    fun a ha => h.asked a (.tail _ ha), fun pre a post hqueue => h.initial (r :: pre) a post (by rw [hqueue, cons_append])⟩
  · grind [SurfaceState.applyProperty, h.pending]
  · have hne : q ≠ p := fun hqp => hclean (hqp ▸ hq)
    exact Finset.mem_erase.mpr ⟨hne, h.dirty q hq⟩
  · by_cases hqp : q = p
    · subst hqp
      have hasked := h.asked r (.head _) q hr hclean
      simpa [SurfaceState.applyProperty] using hasked.trans hread
    · have hq : q ∉ s.pendingProperties := fun hin => hq (Finset.mem_erase.mpr ⟨hqp, hin⟩)
      simpa [SurfaceState.applyProperty, Function.update_of_ne hqp] using h.read q hq

theorem resubmit (hr : r.query = some p) : WindowSound readAt (rest ++ [⟨t, some p, clock⟩]) notified steps clock
      { s with dirtyProperties := s.dirtyProperties.erase p } := by
  obtain ⟨hp, hrest⟩ := h.alone hr
  have hsent := (show WindowSound readAt ([r] ++ rest) notified steps clock s from h).send (t := t) (by simpa using hr)
    hrest (h.notified_le p)
  rwa [Finset.insert_eq_of_mem hp, Function.update_eq_self] at hsent

end

theorem publish (h : WindowSound readAt queue notified steps clock s) (hready : s.mapResultReady)
    (hidle : s.pendingProperties = ∅) : queue.countP (·.query.isSome) = 0 ∧ steps.head? = some .applied ∧
      WindowSound readAt queue notified (.published 0 :: steps) clock { s with mapResultReady := false } := by
  refine ⟨countP_eq_zero.mpr fun r hr hsome => ?_, (h.ready hready).2, ?_⟩
  · obtain ⟨p, hp⟩ := Option.isSome_iff_exists.mp hsome
    exact h.not_asked (by simp [hidle]) r hr hp
  · have hwait : s.initialQueryPending = false := by
      by_contra hwait
      exact absurd (h.awaited (by simpa using hwait)).2.1 (by simp [hready])
    exact ⟨h.pending, h.dirty, h.notified_le, (fun ha => absurd ha (by simp [hwait])), (fun hr => by cases hr), h.read,
      h.asked, h.initial⟩

end WindowSound

/-! All windows. -/

def mine (t : Target) (requests : List Request) : List Request := requests.filter fun r => r.target = t

@[simp] theorem mine_append (t : Target) (r s : List Request) : mine t (r ++ s) = mine t r ++ mine t s :=
  filter_append ..

theorem mine_cons_self (r : Request) (rest : List Request) : mine r.target (r :: rest) = r :: mine r.target rest :=
  filter_cons_of_pos (by simp)

theorem mine_cons_ne {t : Target} {r : Request} (h : t ≠ r.target) (rest : List Request) : mine t (r :: rest) = mine t rest :=
  filter_cons_of_neg (by simpa using h.symm)

structure Sound (readAt : V → Nat) (s : X11Wm V) : Prop where
  windows : ∀ id w, s.windows.find id = some w → w.target.window = id ∧ w.target.generation < s.nextWindowGeneration ∧
    WindowSound readAt (mine w.target s.requests) (s.notified w.target) (s.steps w.target) s.clock w.state
  unused : ∀ t, s.nextWindowGeneration ≤ t.generation →
    mine t s.requests = [] ∧ s.steps t = [] ∧ s.notified t = fun _ => 0
  answered : ∀ t, Answered (s.steps t)

structure Touches (t : Target) (state : SurfaceState V) (s s' : X11Wm V) : Prop where
  windows : ∀ id, s'.windows.find id = if id = t.window then some ⟨t, state⟩ else s.windows.find id
  next : s'.nextWindowGeneration = s.nextWindowGeneration
  clock : s'.clock = s.clock
  requests : ∀ u, u ≠ t → mine u s'.requests = mine u s.requests
  notified : ∀ u, u ≠ t → s'.notified u = s.notified u
  steps : ∀ u, u ≠ t → s'.steps u = s.steps u

namespace Sound

variable {readAt : V → Nat} {s s' : X11Wm V} {t : Target} {state : SurfaceState V} {w : X11Surface V} {id : Nat}

variable {state' : SurfaceState V}

theorem touch (h : Sound readAt s) (hfind : s.windows.find t.window = some ⟨t, state⟩)
    (ht : Touches t state' s s') (hanswered : Answered (s'.steps t))
    (hw : WindowSound readAt (mine t s'.requests) (s'.notified t) (s'.steps t) s.clock state') : Sound readAt s' := by
  have hlive := (h.windows t.window _ hfind).2.1
  refine ⟨fun id w hw' => ?_, fun u hu => ?_, fun u => ?_⟩
  · grind +splitImp +splitIndPred
  · grind [ht.next, ht.requests, ht.notified, ht.steps, h.unused]
  · by_cases hne : u = t
    · exact hne ▸ hanswered
    · rw [ht.steps _ hne]
      exact h.answered u

theorem push {event : XwmEvent} (h : Sound readAt s) (hs : s.pushEvent event = some s') : Sound readAt s' := by
  rw [X11Wm.pushEvent] at hs
  split_ifs at hs
  cases hs
  exact ⟨h.windows, h.unused, h.answered⟩

theorem find_window (h : Sound readAt s) (hfind : s.windows.find id = some w) :
    s.windows.find w.target.window = some ⟨w.target, w.state⟩ ∧ WindowSound readAt (mine w.target s.requests)
      (s.notified w.target) (s.steps w.target) s.clock w.state := by
  obtain ⟨rfl, -, hw⟩ := h.windows id w hfind
  exact ⟨hfind, hw⟩

theorem replace (h : Sound readAt s) (hfind : s.windows.find t.window = some ⟨t, state⟩) {state' : SurfaceState V}
    (hw : WindowSound readAt (mine t s.requests) (s.notified t) (s.steps t) s.clock state') :
    Sound readAt (s.put ⟨t, state'⟩) :=
  h.touch hfind ⟨fun _ => Map.find_insert .., rfl, rfl, fun _ _ => rfl, fun _ _ => rfl, fun _ _ => rfl⟩ (h.answered t) hw

theorem record {step : MapStep} (h : Sound readAt s) (hfind : s.windows.find t.window = some ⟨t, state⟩) (hanswered : Answered (step :: s.steps t))
    (hw : WindowSound readAt (mine t s.requests) (s.notified t) (step :: s.steps t) s.clock state') :
    Sound readAt ((s.put ⟨t, state'⟩).record t step) := by
  refine h.touch hfind ⟨fun _ => Map.find_insert .., rfl, rfl, fun _ _ => rfl, fun _ _ => rfl, fun u hu => Function.update_of_ne hu _ _⟩ ?_ ?_
  · simpa [X11Wm.record, X11Wm.put] using hanswered
  · simpa [X11Wm.record, X11Wm.put] using! hw

theorem publish (h : Sound readAt s) (hfind : s.windows.find t.window = some ⟨t, state⟩)
    (hs : s.publishCompletedMapRequest ⟨t, state⟩ = some s') : Sound readAt s' := by
  rw [X11Wm.publishCompletedMapRequest, SurfaceState.takeCompletedMapRequest] at hs
  by_cases hwait : state.mapResultReady = false ∨ state.pendingProperties ≠ ∅
  · grind
  · simp only [if_neg hwait] at hs
    rw [not_or, not_ne_iff, Bool.not_eq_false] at hwait
    obtain ⟨hcount, happlied, hw⟩ := (h.find_window hfind).2.publish hwait.1 hwait.2
    have hzero : s.outstanding t = 0 := by
      rw [← hcount, X11Wm.outstanding, mine, countP_filter]
      simp only [Bool.decide_and, Bool.decide_eq_true, Bool.and_comm]
    rw [hzero] at hs
    refine push (s := (s.put ⟨t, { state with mapResultReady := false }⟩).record t (.published 0)) ?_ hs
    refine h.record hfind ?_ ?_
    · exact ⟨rfl, happlied, h.answered t⟩
    · exact hw

variable {room : Bool}

theorem submit {query : Option PropertyQuery} {u : X11Wm V} (h : Sound readAt s)
    (hfind : s.windows.find t.window = some ⟨t, state⟩) (hs : u.submitPropertyRequest room t query = some s') (hu : Touches t state' s u) (hanswered : Answered (u.steps t))
    (hw : WindowSound readAt (mine t u.requests ++ [⟨t, query, s.clock⟩]) (u.notified t) (u.steps t) s.clock state') :
    Sound readAt s' := by
  rw [X11Wm.submitPropertyRequest] at hs
  split_ifs at hs
  cases hs
  refine h.touch hfind ⟨hu.windows, hu.next, hu.clock, fun v hv => ?_, hu.notified, hu.steps⟩ hanswered ?_
  · rw [mine_append, hu.requests v hv, mine_cons_ne hv]
    exact append_nil _
  · rw [mine_append, hu.clock, mine_cons_self ⟨t, query, s.clock⟩]
    exact hw

theorem mapRequest (h : Sound readAt s) (hs : s.mapRequest room id = some s') : Sound readAt s' := by
  obtain ⟨w, hfind, hs⟩ := Option.bind_eq_some_iff.mp hs
  obtain ⟨hfind, hw⟩ := h.find_window hfind
  by_cases hflight : w.state.mapRequestInFlight
  · grind [SurfaceState.beginMapRequest]
  · rw [Bool.not_eq_true] at hflight
    have haccept := hw.accept (t := w.target) hflight
    rw [SurfaceState.beginMapRequest, if_neg (by simp [hflight])] at hs haccept
    refine h.submit hfind hs ⟨fun _ => Map.find_insert .., rfl, rfl, fun _ _ => rfl, fun _ _ => rfl, fun u hu => Function.update_of_ne hu _ _⟩ ?_ ?_
    · simpa [X11Wm.record, X11Wm.put, Answered] using h.answered w.target
    · simpa [X11Wm.record, X11Wm.put] using! haccept

theorem propertyNotify {query : PropertyQuery} (h : Sound readAt s)
    (hs : s.propertyNotify room id query = some s') : Sound readAt s' := by
  rw [X11Wm.propertyNotify] at hs
  cases hfind : s.windows.find id with
  | none =>
    rw [hfind] at hs
    cases hs
    exact h
  | some w =>
    simp only [hfind] at hs
    obtain ⟨hfind, hw⟩ := h.find_window hfind
    by_cases hp : query ∈ w.state.pendingProperties
    · have hnote := hw.notifyDirty hp
      rw [SurfaceState.schedulePropertyQuery, if_pos hp] at hs hnote
      cases hs
      refine h.touch hfind ⟨fun _ => Map.find_insert .., rfl, rfl, fun _ _ => rfl, fun u hu => Function.update_of_ne hu _ _, fun _ _ => rfl⟩
        (h.answered _) ?_
      simpa [X11Wm.put] using! hnote
    · have hnote := hw.notify (t := w.target) hp
      rw [SurfaceState.schedulePropertyQuery, if_neg hp] at hs hnote
      refine h.submit hfind hs ⟨fun _ => Map.find_insert .., rfl, rfl, fun _ _ => rfl, fun u hu => Function.update_of_ne hu _ _, fun _ _ => rfl⟩
        (h.answered _) ?_
      simpa [X11Wm.put] using! hnote

variable {property : PropertyQuery → V}

theorem createWindow (h : Sound readAt s) (hs : s.createWindow property id = some s') : Sound readAt s' := by
  rw [X11Wm.createWindow] at hs
  split_ifs at hs with hused
  refine push (s := { s.put ⟨⟨id, s.nextWindowGeneration⟩, .new property⟩ with
    nextWindowGeneration := s.nextWindowGeneration + 1 }) ?_ hs
  refine ⟨fun j w hw => ?_, fun t ht => h.unused t (Nat.le_of_succ_le ht), h.answered⟩
  simp only [X11Wm.put, Map.find_insert] at hw
  by_cases hj : j = id
  · rw [if_pos hj] at hw
    cases hw
    obtain ⟨hmine, hsteps, hnotified⟩ := h.unused ⟨id, s.nextWindowGeneration⟩ le_rfl
    refine ⟨hj.symm, Nat.lt_succ_self _, ?_⟩
    simp only [X11Wm.put, hmine, hnotified]
    constructor <;> simp [SurfaceState.new]
  · rw [if_neg hj] at hw
    obtain ⟨hid, hgen, hsound⟩ := h.windows j w hw
    exact ⟨hid, Nat.lt_succ_of_lt hgen, hsound⟩

theorem change {f : SurfaceState V → SurfaceState V} {event : Option (Target → XwmEvent)} (h : Sound readAt s)
    (hf : ∀ queue notified steps clock state, WindowSound readAt queue notified steps clock state →
      WindowSound readAt queue notified steps clock (f state)) (hs : s.change id f event = some s') : Sound readAt s' := by
  rw [X11Wm.change] at hs
  cases hfind : s.windows.find id with
  | none =>
    rw [hfind] at hs
    cases hs
    exact h
  | some w =>
    obtain ⟨hfind, hw⟩ := h.find_window hfind
    have hreplaced := h.replace hfind (hf _ _ _ _ _ hw)
    grind [hreplaced.push]

variable {r : Request} {rest : List Request}

theorem pop (h : Sound readAt s) (hreq : s.requests = r :: rest)
    (hgone : ∀ id w, s.windows.find id = some w → w.target ≠ r.target) : Sound readAt { s with requests := rest } := by
  refine ⟨fun id w hw => ?_, fun t ht => ?_, h.answered⟩
  · grind [h.windows, mine_cons_ne]
  · obtain ⟨hmine, hrest⟩ := h.unused t ht
    grind [mine]

theorem result {values : PropertyQuery → V} (h : Sound readAt s)
    (hreq : s.requests = r :: rest) (hread : ∀ p, r.sentAt ≤ readAt (values p))
    (hs : { s with requests := rest }.applyPropertyResult room r.target r.query values = some s') : Sound readAt s' := by
  rw [X11Wm.applyPropertyResult] at hs
  cases hfind : s.windows.find r.target.window with
  | none => grind [h.pop, h.windows]
  | some w =>
    simp only [hfind] at hs
    by_cases ht : w.target = r.target
    · rw [if_neg (not_not_intro ht)] at hs
      obtain ⟨t, state⟩ := w
      obtain rfl : t = r.target := ht
      have hw := (h.find_window hfind).2
      rw [hreq, mine_cons_self] at hw
      have hothers : ∀ u, u ≠ r.target → mine u rest = mine u s.requests := fun u hu => by
        rw [hreq, mine_cons_ne hu]
      cases hquery : r.query with
      | none =>
        simp only [hquery] at hs
        by_cases hwait : state.initialQueryPending = false
        · rw [if_pos hwait] at hs
          cases hs
          refine h.touch hfind ⟨fun id => ?_, rfl, rfl, hothers, fun _ _ => rfl, fun _ _ => rfl⟩ (h.answered _)
            (hw.popInitial hquery)
          grind
        · rw [if_neg hwait] at hs
          rw [Bool.not_eq_false] at hwait
          have happlied : Sound readAt (({ s with requests := rest }.put
              ⟨r.target, state.applyInitialProperties values⟩).record r.target .applied) := by
            refine h.touch hfind ⟨fun _ => Map.find_insert .., rfl, rfl, hothers, fun _ _ => rfl,
              fun u hu => Function.update_of_ne hu _ _⟩ ?_ ?_
            · simp only [X11Wm.record, Function.update_self]
              exact ⟨(hw.awaited hwait).2.2, h.answered _⟩
            · simpa [X11Wm.record, X11Wm.put] using! hw.applyInitial hquery hwait hread
          exact happlied.publish (by simp [X11Wm.record, X11Wm.put]) hs
      | some p =>
        obtain ⟨hp, -⟩ := hw.alone hquery
        simp only [hquery, SurfaceState.completePropertyQuery, hp] at hs
        by_cases hdirty : p ∈ state.dirtyProperties
        · rw [if_pos hdirty] at hs
          exact h.submit hfind hs ⟨fun _ => Map.find_insert .., rfl, rfl, hothers, fun _ _ => rfl, fun _ _ => rfl⟩
            (h.answered _) (hw.resubmit hquery)
        · rw [if_neg hdirty] at hs
          obtain ⟨u, hu, hs⟩ := Option.bind_eq_some_iff.mp hs
          have hput : Sound readAt ({ s with requests := rest }.put ⟨r.target,
              { state with pendingProperties := state.pendingProperties.erase p }.applyProperty p (values p)⟩) := h.touch hfind
            ⟨fun _ => Map.find_insert .., rfl, rfl, hothers, fun _ _ => rfl, fun _ _ => rfl⟩ (h.answered _)
            (hw.complete hquery hdirty (hread p))
          have hpushed : Sound readAt u ∧ u.windows.find r.target.window = some ⟨r.target,
              { state with pendingProperties := state.pendingProperties.erase p }.applyProperty p (values p)⟩ := by
            split_ifs at hu
            · refine ⟨hput.push hu, ?_⟩
              rw [X11Wm.pushEvent] at hu
              split_ifs at hu
              cases hu
              simp [X11Wm.put]
            · cases hu
              exact ⟨hput, by simp [X11Wm.put]⟩
          exact hpushed.1.publish hpushed.2 hs
    grind [h.pop, h.windows]

theorem step {e : Bool × Event V} (h : Sound readAt s) (hs : Step readAt property s e s') : Sound readAt s' := by
  obtain ⟨hs, hread⟩ := hs
  obtain ⟨u, hu, rfl⟩ := Option.map_eq_some_iff.mp hs
  suffices hsound : Sound readAt u from
    ⟨fun id w hw => (hsound.windows id w hw).imp_right fun hw => hw.imp_right WindowSound.later, hsound.unused,
      hsound.answered⟩
  obtain ⟨room, e⟩ := e
  cases e with
  | createNotify id => exact h.createWindow hu
  | mapRequest id => exact h.mapRequest hu
  | mapNotify id =>
    rw [X11Wm.handle] at hu
    exact h.change (fun _ _ _ _ _ hw => hw.mark true) hu
  | unmapNotify id =>
    rw [X11Wm.handle] at hu
    exact h.change (fun _ _ _ _ _ hw => hw.mark false) hu
  | destroyNotify id =>
    rw [X11Wm.handle] at hu
    cases hfind : s.windows.find id with
    | none =>
      rw [hfind] at hu
      cases hu
      exact h
    | some w =>
      simp only [hfind] at hu
      refine push (s := { s with windows := s.windows.erase id }) ⟨fun j w hw => ?_, h.unused, h.answered⟩ hu
      grind [Map.find_erase, h.windows]
  | propertyNotify id query =>
    cases query with
    | none =>
      cases hu
      exact h
    | some query => exact h.propertyNotify hu
  | result values => grind [X11Wm.handle, h.result]
  | nextEvent =>
    cases hu
    exact ⟨h.windows, h.unused, h.answered⟩
  | setMapped id mapped =>
    rw [X11Wm.handle] at hu
    exact h.change (fun _ _ _ _ _ hw => hw.mark mapped) hu
  | cancelMapRequest id =>
    rw [X11Wm.handle] at hu
    exact h.change (fun _ _ _ _ _ hw => hw.cancel) hu

theorem init : Sound readAt (X11Wm.init : X11Wm V) :=
  ⟨fun id w hw => by simp [X11Wm.init] at hw, fun _ _ => ⟨rfl, rfl, rfl⟩, fun _ => trivial⟩

end Sound

end TensorDE.Xwayland.MapRequests
