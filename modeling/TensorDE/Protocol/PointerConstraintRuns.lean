import Mathlib.Logic.Relation
import Mathlib.Logic.Function.Basic
import TensorDE.Lib.Trace
import TensorDE.Protocol.PointerConstraints

set_option linter.dupNamespace false

namespace TensorDE.Protocol.PointerConstraints

open Function Maps Trace Relation

/-- Activations and deactivations in turn, an activation first. -/
def Alternates (events : List ConstraintEvent) : Prop :=
  ∀ i (h : i < events.length), events[i].activates = decide (i % 2 = 0)

theorem Alternates.snoc {events : List ConstraintEvent} {event : ConstraintEvent} (h : Alternates events)
    (hevent : event.activates = decide (events.length % 2 = 0)) : Alternates (events ++ [event]) := by
  intro i hi
  rw [List.length_append, List.length_singleton] at hi
  rcases Nat.lt_or_eq_of_le (Nat.le_of_lt_succ hi) with hlt | rfl
  · rw [List.getElem_append_left hlt]
    exact h i hlt
  · simpa using hevent

theorem Alternates.count_activates {events : List ConstraintEvent} (h : Alternates events) :
    events.countP ConstraintEvent.activates = (events.length + 1) / 2 := by
  induction events using List.reverseRecOn with
  | nil => rfl
  | append_singleton events event ih =>
    have hlast := h events.length (by simp)
    have hinit : Alternates events := by
      intro i hi
      have hget := h i (by simp; omega)
      rwa [List.getElem_append_left hi] at hget
    grind

/-- The part of the state that the life of constraints depends on. -/
structure View (S R : Type) where
  entry : S → Option (ConstraintHandle S R × ConstraintLifetime)
  active : Option S
  surface : S → Option SurfaceStatus
  resource : R → Option (ConstraintResource S)
  received : R → List ConstraintEvent

namespace View

variable {S R : Type} {v w : View S R} {k : S} {e : ConstraintHandle S R × ConstraintLifetime} {r q : R}
  {event : ConstraintEvent} {received : R → List ConstraintEvent}

def Live (v : View S R) (r : R) : Prop := ∃ info, v.resource r = some info ∧ info.alive = true

def Holds (v : View S R) (r : R) : Prop := ∃ k e, v.active = some k ∧ v.entry k = some e ∧ e.1.resource = r

/-- Nothing is to come for the resource: it is dead, or its constraint is no longer in the table. -/
def Retired (v : View S R) (r : R) : Prop :=
  v.resource r ≠ none ∧ (¬v.Live r ∨ ∀ k e, v.entry k = some e → e.1.resource ≠ r)

def Heard (v : View S R) (r : R) (event : ConstraintEvent) (received : R → List ConstraintEvent) : Prop :=
  ∀ q, q = r ∧ v.Live r ∧ received q = v.received q ++ [event] ∨
    ¬(q = r ∧ v.Live r) ∧ received q = v.received q

/-- Entries belong to registered surfaces and resources, the resources that were activated last are
the live ones of the active constraint, and a one-shot constraint that waits was never activated. -/
structure Sound (v : View S R) : Prop where
  known : ∀ k e, v.entry k = some e → e.1.surface = k ∧ v.surface k ≠ none ∧
    ∃ alive, v.resource e.1.resource = some ⟨k, e.1.kind, some e.2, alive⟩
  active : ∀ k, v.active = some k → ∃ e, v.entry k = some e
  alternates : ∀ r, Alternates (v.received r)
  odd_iff : ∀ r, v.Live r → ((v.received r).length % 2 = 1 ↔ v.Holds r)
  oneShot : ∀ r info, v.resource r = some info → info.lifetime = some .oneShot → (v.received r).length ≤ 2
  unused : ∀ k e, v.entry k = some e → e.2 = .oneShot → v.Live e.1.resource → v.surface k = some .alive →
    v.active ≠ some k → v.received e.1.resource = []
  fresh : ∀ r, v.resource r = none → v.received r = []
  orphaned : ∀ r info, v.resource r = some info → v.surface info.surface = some .orphaned → info.alive = false

variable [DecidableEq S] [DecidableEq R]

/-- What a step does to the constraints, to the resources and to what the clients hear, one change at a time. -/
inductive Move : View S R → View S R → Prop where
  | enter {v : View S R} {k : S} {status : SurfaceStatus}
      (h : status = .alive ∧ v.surface k = none ∨ status = .destroyed ∧ v.surface k = some .alive) :
      Move v { v with surface := update v.surface k (some status) }
  | orphan (v : View S R) (k : S) : Move v { v with
      surface := update v.surface k (some .orphaned)
      resource := fun r => (v.resource r).map fun info => if info.surface = k then { info with alive := false } else info }
  | create {v : View S R} {r : R} {info : ConstraintResource S} (hresource : v.resource r = none)
      (hsurface : v.surface info.surface = some .alive) : Move v { v with resource := update v.resource r (some info) }
  | attach {v : View S R} {r : R} {k : S} (kind : ConstraintKind) (lifetime : ConstraintLifetime)
      (hresource : v.resource r = none) (hsurface : v.surface k = some .alive) (hfree : v.entry k = none) :
      Move v { v with
        resource := update v.resource r (some ⟨k, kind, some lifetime, true⟩)
        entry := update v.entry k (some (⟨kind, r, k⟩, lifetime)) }
  | activate {v : View S R} {k : S} {e : ConstraintHandle S R × ConstraintLifetime} {received : R → List ConstraintEvent}
      (hidle : v.active = none) (hfind : v.entry k = some e)
      (hsurface : v.surface k = some .alive ∨ v.surface k = some .orphaned)
      (hheard : v.Heard e.1.resource e.1.activated received) : Move v { v with active := some k, received }
  | deactivate {v : View S R} {k : S} {e : ConstraintHandle S R × ConstraintLifetime}
      {received : R → List ConstraintEvent} (hactive : v.active = some k) (hfind : v.entry k = some e)
      (hheard : v.Heard e.1.resource e.1.deactivated received) : Move v { v with
        active := none
        received
        entry := if e.2 = .oneShot ∧ v.surface k = some .alive then update v.entry k none else v.entry }
  | kill (v : View S R) (r : R) :
      Move v { v with resource := update v.resource r ((v.resource r).map fun info => { info with alive := false }) }
  | remove {v : View S R} {k : S} (h : v.active = some k → ∀ e, v.entry k = some e → ¬v.Live e.1.resource) :
      Move v { v with entry := update v.entry k none, active := if v.active = some k then none else v.active }

omit [DecidableEq R] in
theorem of_update_none {α : Type} {f : S → Option α} {a : α} {j : S} (h : update f k none j = some a) : f j = some a := by
  grind

namespace Sound

omit [DecidableEq S] [DecidableEq R]

theorem eq_of_resource (h : Sound v) {j : S} {f} (hk : v.entry k = some e) (hj : v.entry j = some f)
    (heq : f.1.resource = e.1.resource) : j = k := by
  grind +splitImp +splitIndPred

theorem holds_active (hactive : v.active = some k) (hfind : v.entry k = some e) : v.Holds r ↔ e.1.resource = r := by
  grind [Holds]

theorem not_holds (hidle : v.active = none) : ¬v.Holds r := by
  simp [Holds, hidle]

section

variable (h : Sound v)
include h

theorem activate (hidle : v.active = none) (hfind : v.entry k = some e)
    (hsurface : v.surface k = some .alive ∨ v.surface k = some .orphaned)
    (hheard : v.Heard e.1.resource e.1.activated received) : Sound { v with active := some k, received } := by
  obtain ⟨-, -, alive, hresource⟩ := h.known k e hfind
  have hactivates : e.1.activated.activates = true := by
    cases hkind : e.1.kind <;> simp [ConstraintHandle.activated, hkind, ConstraintEvent.activates]
  have heven : v.Live e.1.resource → (v.received e.1.resource).length % 2 = 0 := by
    intro hlive
    have hodd := (h.odd_iff _ hlive).not.mpr (not_holds hidle)
    omega
  have hunused : v.Live e.1.resource → e.2 = .oneShot → v.received e.1.resource = [] := by
    intro hlive hone
    rcases hsurface with hsurface | hsurface
    · grind [h.unused]
    · have hdead := h.orphaned _ _ hresource hsurface
      obtain ⟨info, hinfo, htrue⟩ := hlive
      simp_all
  refine { h with active := ?_, alternates := ?_, odd_iff := ?_, oneShot := ?_, unused := ?_, fresh := ?_ }
  · rintro _ ⟨⟩
    exact ⟨e, hfind⟩
  · intro q
    obtain ⟨rfl, hlive, hlog⟩ | ⟨-, hlog⟩ := hheard q <;> simp only [hlog]
    · exact (h.alternates _).snoc (by simp [hactivates, heven hlive])
    · exact h.alternates q
  · grind [holds_active, h.odd_iff, not_holds, Live, Heard]
  · intro q info hinfo hone
    obtain ⟨rfl, hlive, hlog⟩ | ⟨-, hlog⟩ := hheard q <;> simp only [hlog]
    · grind
    · exact h.oneShot q info hinfo hone
  · intro j f hj hone hlive hsurface hne
    obtain ⟨heq, -, -⟩ | ⟨-, hlog⟩ := hheard f.1.resource
    · grind -linarith [h.eq_of_resource]
    · exact hlog.trans (h.unused j f hj hone hlive hsurface (by simp [hidle]))
  · intro q hq
    obtain ⟨rfl, -, -⟩ | ⟨-, hlog⟩ := hheard q
    · exact absurd (hresource.symm.trans hq) (by simp)
    · exact hlog.trans (h.fresh q hq)

theorem deactivate [DecidableEq S] (hactive : v.active = some k) (hfind : v.entry k = some e)
    (hheard : v.Heard e.1.resource e.1.deactivated received) : Sound { v with
      active := none
      received
      entry := if e.2 = .oneShot ∧ v.surface k = some .alive then update v.entry k none else v.entry } := by
  obtain ⟨-, -, alive, hresource⟩ := h.known k e hfind
  have hactivates : e.1.deactivated.activates = false := by
    cases hkind : e.1.kind <;> simp [ConstraintHandle.deactivated, hkind, ConstraintEvent.activates]
  have hodd : v.Live e.1.resource → (v.received e.1.resource).length % 2 = 1 :=
    fun hlive => (h.odd_iff _ hlive).mpr ((holds_active hactive hfind).mpr rfl)
  have hold : ∀ j f, (if e.2 = .oneShot ∧ v.surface k = some .alive then update v.entry k none else v.entry) j = some f →
      v.entry j = some f ∧ (j = k → ¬(e.2 = .oneShot ∧ v.surface k = some .alive)) := by
    intro j f hj
    split_ifs at hj with hgone
    · exact ⟨of_update_none hj, fun heq => by simp [heq] at hj⟩
    · exact ⟨hj, fun _ => hgone⟩
  refine { h with
    known := fun j f hj => h.known j f (hold j f hj).1
    active := by simp
    alternates := ?_, odd_iff := ?_, oneShot := ?_, unused := ?_, fresh := ?_ }
  · intro q
    obtain ⟨rfl, hlive, hlog⟩ | ⟨-, hlog⟩ := hheard q <;> simp only [hlog]
    · exact (h.alternates _).snoc (by simp [hactivates, hodd hlive])
    · exact h.alternates q
  · intro q hq
    refine iff_of_false ?_ (not_holds rfl)
    obtain ⟨rfl, hlive, hlog⟩ | ⟨hne, hlog⟩ := hheard q <;> simp only [hlog]
    · grind
    · rw [h.odd_iff q hq, holds_active hactive hfind]
      exact fun heq => hne ⟨heq.symm, heq ▸ hq⟩
  · intro q info hinfo hone
    have hlength := h.oneShot q info hinfo hone
    obtain ⟨rfl, hlive, hlog⟩ | ⟨-, hlog⟩ := hheard q <;> simp only [hlog]
    · grind
    · exact hlength
  · intro j f hj hone hlive hsurface _
    grind -linarith [h.eq_of_resource, h.unused, Heard, Live]
  · intro q hq
    obtain ⟨rfl, -, -⟩ | ⟨-, hlog⟩ := hheard q
    · exact absurd (hresource.symm.trans hq) (by simp)
    · exact hlog.trans (h.fresh q hq)

/-- What keeps the books when surfaces and resources change their status and no constraint comes or goes. -/
theorem status (hentry : w.entry = v.entry) (hactive : w.active = v.active)
    (hreceived : w.received = v.received) (hsurface : ∀ k, v.surface k ≠ none → w.surface k ≠ none)
    (halive : ∀ k, v.surface k ≠ none → w.surface k = some .alive → v.surface k = some .alive)
    (hresource : ∀ r, v.resource r = none → w.resource r = none)
    (hkept : ∀ r old, v.resource r = some old → ∃ info, w.resource r = some info ∧
      (info = old ∨ info = { old with alive := false }) ∧ (w.surface old.surface = some .orphaned → info.alive = false)) :
    Sound w := by
  have hinfo : ∀ r info, w.resource r = some info → ∃ old, v.resource r = some old ∧
      (info = old ∨ info = { old with alive := false }) ∧
      (w.surface old.surface = some .orphaned → info.alive = false) := by
    intro r info hr
    cases hold : v.resource r with
    | none => simp [hresource r hold] at hr
    | some old => grind
  have hlive : ∀ r, w.Live r → v.Live r := by
    rintro r ⟨info, hr, htrue⟩
    obtain ⟨old, hold, rfl | rfl, -⟩ := hinfo r info hr
    · exact ⟨info, hold, htrue⟩
    · cases htrue
  have hholds : ∀ r, w.Holds r ↔ v.Holds r := fun r => by rw [Holds, Holds, hentry, hactive]
  constructor
  · intro k e hk
    grind [h.known]
  · rw [hentry, hactive]
    exact h.active
  · rw [hreceived]
    exact h.alternates
  · intro r hr
    rw [hreceived, hholds]
    exact h.odd_iff r (hlive r hr)
  · grind +splitImp +splitIndPred
  · intro k e hk hone hr hkalive hne
    grind +splitImp +splitIndPred
  · intro r hr
    rw [hreceived]
    cases hold : v.resource r with
    | none => exact h.fresh r hold
    | some old => grind
  grind

theorem enter [DecidableEq S] {status : SurfaceStatus}
    (hstatus : status = .alive ∧ v.surface k = none ∨ status = .destroyed ∧ v.surface k = some .alive) :
    Sound { v with surface := update v.surface k (some status) } := by
  grind +splitImp +splitIndPred [h.status]

theorem orphan [DecidableEq S] (k : S) : Sound { v with
    surface := update v.surface k (some .orphaned)
    resource := fun r => (v.resource r).map fun info => if info.surface = k then { info with alive := false } else info } := by
  grind -linarith [h.status, h.orphaned]

theorem kill [DecidableEq R] (r : R) : Sound
    { v with resource := update v.resource r ((v.resource r).map fun info => { info with alive := false }) } := by
  grind +splitImp +splitIndPred [h.status]

theorem ne_of_fresh (hresource : v.resource r = none) (hk : v.entry k = some e) : e.1.resource ≠ r := by
  grind +splitImp +splitIndPred

end

theorem create [DecidableEq R] (h : Sound v) {info : ConstraintResource S} (hresource : v.resource r = none)
    (hsurface : v.surface info.surface = some .alive) : Sound { v with resource := update v.resource r (some info) } := by
  have hlive : ∀ q, q ≠ r → Live { v with resource := update v.resource r (some info) } q → v.Live q := by
    rintro q hq ⟨other, hother, htrue⟩
    exact ⟨other, by simpa [hq] using hother, htrue⟩
  have hnone := h.fresh r hresource
  refine { h with known := ?_, odd_iff := ?_, oneShot := ?_, unused := ?_, fresh := ?_, orphaned := ?_ }
  · intro k e hk
    grind [h.known]
  · intro q hq
    by_cases hqr : q = r
    · subst hqr
      refine iff_of_false (by simp [hnone]) ?_
      rintro ⟨k, e, -, hk, heq⟩
      exact h.ne_of_fresh hresource hk heq
    · exact h.odd_iff q (hlive q hqr hq)
  · grind +splitImp +splitIndPred
  · exact fun k e hk hone hr => h.unused k e hk hone (hlive _ (h.ne_of_fresh hresource hk) hr)
  · grind [h.fresh]
  grind [h.orphaned]

theorem attach [DecidableEq S] [DecidableEq R] (h : Sound v) {kind : ConstraintKind} {lifetime : ConstraintLifetime}
    (hresource : v.resource r = none) (hsurface : v.surface k = some .alive) (hfree : v.entry k = none) : Sound { v with
      resource := update v.resource r (some ⟨k, kind, some lifetime, true⟩)
      entry := update v.entry k (some (⟨kind, r, k⟩, lifetime)) } := by
  have hnew : Sound { v with resource := update v.resource r (some ⟨k, kind, some lifetime, true⟩) } :=
    h.create hresource hsurface
  have hactive : ∀ j, v.active = some j → j ≠ k := by
    rintro j hj rfl
    obtain ⟨e, he⟩ := h.active j hj
    simp [hfree] at he
  refine { hnew with known := ?_, active := ?_, odd_iff := ?_, unused := ?_ }
  · intro j f hj
    grind -linarith [hnew.known]
  · grind [h.active]
  · intro q hq
    refine (hnew.odd_iff q hq).trans (exists_congr fun j => exists_congr fun f => and_congr_right fun hj => ?_)
    simp [hactive j hj]
  · intro j f hj
    by_cases hjk : j = k
    · grind [h.fresh]
    · exact hnew.unused j f (by simpa [hjk] using hj)

theorem remove [DecidableEq S] (h : Sound v) (hdead : v.active = some k → ∀ e, v.entry k = some e → ¬v.Live e.1.resource) :
    Sound { v with entry := update v.entry k none, active := if v.active = some k then none else v.active } := by
  have hold : ∀ j f, update v.entry k none j = some f → j ≠ k ∧ v.entry j = some f :=
    fun j f hj => ⟨fun heq => by simp [heq] at hj, of_update_none hj⟩
  refine { h with
    known := fun j f hj => h.known j f (hold j f hj).2
    active := ?_, odd_iff := ?_, unused := ?_ }
  · grind [h.active]
  · grind [h.odd_iff, Live, Holds]
  · intro j f hj hone hlive hsurface hne
    grind -linarith [h.unused, Live]

theorem move [DecidableEq S] [DecidableEq R] (h : Sound v) (hmove : Move v w) : Sound w := by
  grind +splitImp +splitIndPred [enter, orphan, create, attach, activate, deactivate, kill, remove]

theorem moves [DecidableEq S] [DecidableEq R] (h : Sound v) (hmoves : ReflTransGen Move v w) : Sound w := by
  induction hmoves with
  | refl => exact h
  | tail _ hlast ih => exact ih.move hlast

end Sound

theorem Move.retired (hmove : Move v w) (h : v.Retired r) : w.Retired r ∧ w.received r = v.received r := by
  have hsilent : ∀ {k e event received}, v.entry k = some e → v.Heard e.1.resource event received →
      received r = v.received r := by
    intro k e event received hk hheard
    obtain ⟨rfl, hlive, -⟩ | ⟨-, hlog⟩ := hheard r
    · exact absurd hlive fun hlive => h.2.elim (fun hdead => hdead hlive) fun habsent => habsent k e hk rfl
    · exact hlog
  have hkept : ∀ {w : View S R}, w.resource r ≠ none → (w.Live r → v.Live r) →
      (∀ k e, w.entry k = some e → e.1.resource = r → v.entry k = some e) → w.Retired r :=
    fun hsome hlive hentry => ⟨hsome, h.2.imp (fun hdead hnew => hdead (hlive hnew)) fun habsent k e hk heq =>
      habsent k e (hentry k e hk heq) heq⟩
  cases hmove with
  | enter => exact ⟨h, rfl⟩
  | orphan k =>
    refine ⟨hkept (by simpa using h.1) ?_ fun _ _ hk _ => hk, rfl⟩
    rintro ⟨info, hinfo, htrue⟩
    obtain ⟨old, hold, rfl⟩ := Option.map_eq_some_iff.mp hinfo
    split_ifs at htrue
    exact ⟨old, hold, htrue⟩
  | @create other info hresource => grind -linarith [Retired, Live]
  | @attach other k kind lifetime hresource => grind -linarith [Retired, Live]
  | activate hidle hfind hsurface hheard => exact ⟨h, hsilent hfind hheard⟩
  | deactivate hactive hfind hheard =>
    refine ⟨hkept h.1 id fun j f hj _ => ?_, hsilent hfind hheard⟩
    grind
  | kill other =>
    refine ⟨hkept ?_ ?_ fun _ _ hk _ => hk, rfl⟩
    · by_cases hr : r = other
      · subst hr
        simpa using h.1
      · simpa [hr] using h.1
    · rintro ⟨info, hinfo, htrue⟩
      by_cases hr : r = other
      · subst hr
        obtain ⟨old, -, rfl⟩ := Option.map_eq_some_iff.mp (by simpa using hinfo)
        cases htrue
      · exact ⟨info, by simpa [hr] using hinfo, htrue⟩
  | remove => exact ⟨hkept h.1 id fun j f hj _ => of_update_none hj, rfl⟩

theorem retired_moves (hmoves : ReflTransGen Move v w) (h : v.Retired r) :
    w.Retired r ∧ w.received r = v.received r := by
  induction hmoves with
  | refl => exact ⟨h, rfl⟩
  | tail _ hlast ih => grind [hlast.retired]

end View

variable {S R P G B : Type} [DecidableEq S] [DecidableEq R] {plane : Plane P G B} {s t : State S R P G}

namespace State

def received (s : State S R P G) (resource : R) : List ConstraintEvent :=
  (s.log.filter fun entry => decide (entry.1 = resource)).map Prod.snd

def view (s : State S R P G) : View S R where
  entry surface := (s.constraints.find surface).map fun constraint => (constraint.handle, constraint.lifetime)
  active := s.active.map ActiveConstraint.surface
  surface := s.surfaces.find
  resource := s.resources.find
  received := s.received

theorem find_of_active {active : ActiveConstraint S P} (h : s.view.Sound) (hactive : s.active = some active) :
    ∃ constraint, s.constraints.find active.surface = some constraint := by
  obtain ⟨_, he⟩ := h.active active.surface (by simp [view, hactive])
  obtain ⟨constraint, hfind, -⟩ := Option.map_eq_some_iff.mp he
  exact ⟨constraint, hfind⟩

theorem send_eq (s : State S R P G) (resource : R) (event : ConstraintEvent) :
    (s.view.Live resource ∧ s.send resource event = { s with log := s.log ++ [(resource, event)] }) ∨
      (¬s.view.Live resource ∧ s.send resource event = s) := by
  simp only [send, View.Live, view]
  rcases s.resources.find resource with _ | ⟨surface, kind, lifetime, alive⟩
  · simp
  · cases alive <;> simp

theorem view_send (s : State S R P G) (resource : R) (event : ConstraintEvent) :
    ∃ received, s.view.Heard resource event received ∧ (s.send resource event).view = { s.view with received } := by
  refine ⟨(s.send resource event).received, fun q => ?_, ?_⟩
  · obtain ⟨hlive, hs⟩ | ⟨hdead, hs⟩ := s.send_eq resource event <;> rw [hs]
    · by_cases hq : q = resource
      · subst hq
        exact .inl ⟨rfl, hlive, by simp [view, received]⟩
      · have hne : resource ≠ q := fun heq => hq heq.symm
        exact .inr ⟨fun h => hq h.1, by simp [view, received, hne]⟩
    · exact .inr ⟨fun h => hdead h.2, rfl⟩
  · obtain ⟨-, hs⟩ | ⟨-, hs⟩ := s.send_eq resource event <;> rw [hs] <;> rfl

theorem view_modify {surface : S} {f : Constraint S R P G → Constraint S R P G}
    (hf : ∀ constraint, ((f constraint).handle, (f constraint).lifetime) = (constraint.handle, constraint.lifetime)) :
    view { s with constraints := s.constraints.modify surface f } = s.view := by
  rw [view, view, View.mk.injEq]
  refine ⟨funext fun k => ?_, rfl, rfl, rfl, rfl⟩
  rw [Map.find_modify]
  split_ifs
  · rw [Option.map_map]
    exact congrArg (Option.map · _) (funext hf)
  · rfl

omit [DecidableEq R] in
theorem find_insert_eq_update {V : Type} (m : Map S V) (k : S) (a : V) :
    (m.insert k a).find = Function.update m.find k (some a) := by
  funext j
  by_cases hj : j = k <;> simp [hj]

theorem view_surfaces {m : Map S SurfaceStatus} {f : S → Option SurfaceStatus} (h : m.find = f) :
    view { s with surfaces := m } = { s.view with surface := f } :=
  congrArg (fun f => { s.view with surface := f }) h

theorem view_resources {m : Map R (ConstraintResource S)} {f : R → Option (ConstraintResource S)} (h : m.find = f) :
    view { s with resources := m } = { s.view with resource := f } :=
  congrArg (fun f => { s.view with resource := f }) h

theorem view_removeEntry (surface : S) :
    (s.removeEntry surface).view = { s.view with entry := Function.update s.view.entry surface none } := by
  rw [view, removeEntry, View.mk.injEq]
  refine ⟨funext fun k => ?_, rfl, rfl, rfl, rfl⟩
  by_cases hk : k = surface <;> simp [hk, view]

end State

section Steps

open State View

variable {surface : S} {focus : Option (S × P)} {space : Option B}

theorem deactivateActive_moves (h : s.view.Sound) :
    ReflTransGen Move s.view (s.deactivateActive plane).1.view ∧ (s.deactivateActive plane).1.view.active = none ∧
      (s.deactivateActive plane).1.view.surface = s.view.surface := by
  rw [deactivateActive]
  cases hactive : s.active with
  | none => exact ⟨.refl, by simp [view, hactive], rfl⟩
  | some active =>
    obtain ⟨constraint, hfind⟩ := find_of_active h hactive
    have hentry : s.view.entry active.surface = some (constraint.handle, constraint.lifetime) := by simp [view, hfind]
    have hsame := (h.known _ _ hentry).1
    obtain ⟨received, hheard, hview⟩ :=
      view_send { s with active := none } constraint.handle.resource constraint.handle.deactivated
    have hsurface : State.surfaces (State.send { s with active := none } constraint.handle.resource
        constraint.handle.deactivated) = s.surfaces := by
      obtain ⟨-, hs⟩ | ⟨-, hs⟩ := State.send_eq { s with active := none } constraint.handle.resource
        constraint.handle.deactivated <;> rw [hs]
    have hlast : (State.expire (State.send { s with active := none } constraint.handle.resource
        constraint.handle.deactivated) active.surface constraint).view = { s.view with
          active := none
          received
          entry := if constraint.lifetime = .oneShot ∧ s.view.surface active.surface = some .alive then
            Function.update s.view.entry active.surface none else s.view.entry } := by
      rw [expire, upgrades, hsurface, hsame]
      by_cases hgone : constraint.lifetime = .oneShot ∧ s.view.surface active.surface = some .alive
      · rw [if_pos ⟨hgone.1, decide_eq_true hgone.2⟩, if_pos hgone, view_removeEntry, hview]
        rfl
      · rw [if_neg fun hc => hgone ⟨hc.1, of_decide_eq_true hc.2⟩, if_neg hgone]
        exact hview
    simp only [hfind]
    rw [hlast]
    exact ⟨.single (.deactivate (by simp [view, hactive]) hentry hheard), rfl, rfl⟩

variable {location : P}

theorem activateFocused_moves (hidle : s.view.active = none) (hfocus : s.mayFocus focus) :
    ReflTransGen Move s.view (s.activateFocused plane focus location).view := by
  rw [activateFocused.eq_def]
  match focus with
  | none => exact .refl
  | some (surface, origin) =>
    dsimp only
    cases hfind : s.constraints.find surface with
    | none => exact .refl
    | some constraint =>
      dsimp only
      split_ifs
      · obtain ⟨received, hheard, hview⟩ := s.view_send constraint.handle.resource constraint.handle.activated
        have hlast : State.view { s.send constraint.handle.resource constraint.handle.activated with
            active := some ⟨surface, origin⟩ } = { s.view with active := some surface, received } :=
          congrArg (fun v : View S R => { v with active := some surface }) hview
        rw [hlast]
        exact .single (.activate (e := (constraint.handle, constraint.lifetime)) hidle (by simp [view, hfind])
          (by simpa [view, mayFocus] using hfocus) hheard)
      · exact .refl

theorem focusChanged_moves (h : s.view.Sound) (hfocus : s.mayFocus focus) :
    ReflTransGen Move s.view (s.focusChanged plane focus location).1.view := by
  obtain ⟨hmoves, hidle, hsurfaces⟩ := deactivateActive_moves h
  rw [focusChanged]
  split_ifs
  · have hsame : State.view { s with
        active := s.active.map fun active => { active with origin := (focus.map Prod.snd).getD active.origin } } = s.view := by
      simp [view, Function.comp_def]
      rfl
    rw [hsame]
  · rcases hdeactivate : s.deactivateActive plane with ⟨last, _ | warp⟩
    · rw [hdeactivate] at hmoves hidle hsurfaces
      refine hmoves.trans (activateFocused_moves hidle ?_)
      rwa [mayFocus, show last.surfaces.find = s.surfaces.find from hsurfaces]
    · rwa [hdeactivate] at hmoves

theorem view_applyHint (hint : Option P) : (s.applyHint plane hint space).view = s.view := by
  rw [applyHint.eq_def]
  split <;> rfl

theorem changeFocus_moves (h : s.view.Sound) (hfocus : s.mayFocus focus) :
    ReflTransGen Move s.view (s.changeFocus plane focus location space).view := by
  rw [changeFocus, view_applyHint]
  exact focusChanged_moves h hfocus

theorem forwardPointerLocation_moves {proposed : P} {dnd kept : Bool} (h : s.view.Sound) (hfocus : s.mayFocus focus) :
    ReflTransGen Move s.view (s.forwardPointerLocation plane proposed dnd focus kept space).view := by
  rw [forwardPointerLocation]
  cases s.location with
  | none => exact .refl
  | some previous =>
    have hkept : s.mayFocus (if kept then focus else none) := by
      cases kept with
      | true => exact hfocus
      | false => rfl
    have hmoves : ReflTransGen Move s.view (changeFocus plane
        { s with location := some (s.constrainMotion plane previous proposed).location }
        (if kept then focus else none) (s.constrainMotion plane previous proposed).location space).view :=
      changeFocus_moves (s := { s with location := some (s.constrainMotion plane previous proposed).location }) h hkept
    cases dnd with
    | true => exact .refl
    | false => grind

variable {resource : R}

theorem detachResource_moves (hdead : ¬s.view.Live resource) :
    ReflTransGen Move s.view (s.detachResource plane surface resource).1.view := by
  have hremove : ∀ constraint, s.constraints.find surface = some constraint → constraint.handle.resource = resource →
      ReflTransGen Move s.view { s.view with
        entry := Function.update s.view.entry surface none
        active := if s.view.active = some surface then none else s.view.active } := by
    rintro constraint hfind rfl
    refine .single (.remove fun _ e he => ?_)
    obtain rfl : (constraint.handle, constraint.lifetime) = e := by simpa [view, hfind] using he
    exact hdead
  rw [detachResource]
  cases hfind : s.constraints.find surface with
  | none => exact .refl
  | some constraint =>
    dsimp only
    split_ifs with heq
    · have hlast := hremove constraint hfind heq
      cases hactive : s.active with
      | none => grind [view_removeEntry, view]
      | some active =>
        dsimp only
        split_ifs with hsame
        · subst hsame
          rw [view_removeEntry]
          rwa [if_pos (by simp [view, hactive])] at hlast
        grind [view_removeEntry, view]
    · exact .refl

theorem removeSurface_moves (h : s.view.Sound) : ReflTransGen Move s.view (s.removeSurface plane surface).view := by
  have hremove : ∀ {t : State S R P G}, t.view.active ≠ some surface → Move t.view (t.removeEntry surface).view := by
    intro t hne
    have hlast : Move t.view { t.view with entry := Function.update t.view.entry surface none, active := _ } :=
      .remove fun hactive => absurd hactive hne
    rwa [if_neg hne, ← view_removeEntry] at hlast
  rw [removeSurface]
  cases hactive : s.active with
  | none => exact .single (hremove (by simp [view, hactive]))
  | some active => grind [deactivateActive_moves, view]

theorem lockOrConfine_moves {kind : ConstraintKind} {lifetime : Option ConstraintLifetime}
    {pointerActive : Bool} {region : G} (hresource : s.resources.find resource = none)
    (hsurface : s.surfaces.find surface = some .alive) :
    ReflTransGen Move s.view (lockOrConfine
      { s with resources := s.resources.insert resource ⟨surface, kind, lifetime, true⟩ }
      resource surface kind lifetime pointerActive region).view := by
  have hcreate : ReflTransGen Move s.view
      (view { s with resources := s.resources.insert resource ⟨surface, kind, lifetime, true⟩ }) := by
    rw [view_resources (find_insert_eq_update _ _ _)]
    exact .single (.create hresource hsurface)
  cases lifetime with
  | none => exact hcreate
  | some lifetime =>
    rw [lockOrConfine]
    cases pointerActive with
    | false => exact hcreate
    | true =>
      rw [if_pos rfl, attach]
      cases hfree : s.constraints.find surface with
      | some constraint => exact hcreate
      | none =>
        have hlast : Move s.view _ := .attach kind lifetime hresource hsurface (by simp [view, hfree])
        refine .single ?_
        convert hlast using 1
        rw [view, View.mk.injEq]
        refine ⟨funext fun k => ?_, rfl, rfl, find_insert_eq_update _ _ _, rfl⟩
        by_cases hk : k = surface <;> simp [hk, view]

theorem step_moves {e : Event S R P G B} (h : s.view.Sound) (hstep : s.step plane e = some t) :
    ReflTransGen Move s.view t.view := by
  cases e with
  | createSurface surface =>
    obtain ⟨hfree, heq⟩ := Option.ite_none_right_eq_some.mp hstep
    obtain rfl := Option.some.inj heq
    rw [view_surfaces (find_insert_eq_update _ _ _)]
    exact .single (.enter (.inl ⟨rfl, hfree⟩))
  | lockOrConfine resource surface kind lifetime pointerActive region => grind [lockOrConfine_moves, step]
  | setRegion resource region =>
    obtain ⟨r, -, rfl⟩ := Option.map_eq_some_iff.mp hstep
    grind [setRegion, view_modify]
  | setCursorPositionHint resource hint =>
    obtain ⟨r, -, rfl⟩ := Option.map_eq_some_iff.mp hstep
    grind [setCursorHint, view_modify]
  | commit surface =>
    obtain rfl := Option.some.inj hstep
    rw [commit, view_modify (f := Constraint.commit) fun _ => rfl]
  | reconcile focus space =>
    obtain ⟨hfocus, heq⟩ := Option.ite_none_right_eq_some.mp hstep
    obtain rfl := Option.some.inj heq
    rw [reconcile]
    cases s.location with
    | none => exact changeFocus_moves h rfl
    | some location => exact changeFocus_moves h hfocus
  | clearPointerFocus =>
    obtain rfl := Option.some.inj hstep
    rw [clearPointerFocus]
    cases s.location with
    | none => exact .refl
    | some location => exact focusChanged_moves h rfl
  | motion proposed dnd focus kept space =>
    obtain ⟨hfocus, heq⟩ := Option.ite_none_right_eq_some.mp hstep
    grind -linarith [forwardPointerLocation_moves]
  | destroyResource resource space =>
    obtain ⟨r, -, rfl⟩ := Option.map_eq_some_iff.mp hstep
    have hkill : Move s.view
        (view { s with resources := s.resources.modify resource fun r => { r with alive := false } }) := by
      have hmodify : (s.resources.modify resource fun r => { r with alive := false }).find = Function.update
          s.resources.find resource ((s.resources.find resource).map fun r => { r with alive := false }) := by
        funext q
        by_cases hq : q = resource <;> simp [hq]
      rw [view_resources hmodify]
      exact .kill s.view resource
    refine .head hkill ?_
    split_ifs
    · rw [view_applyHint]
      refine detachResource_moves ?_
      rintro ⟨info, hinfo, htrue⟩
      obtain ⟨old, -, rfl⟩ := Option.map_eq_some_iff.mp (by simpa [view] using hinfo)
      cases htrue
    · exact .refl
  | destroySurface surface =>
    obtain ⟨halive, heq⟩ := Option.ite_none_right_eq_some.mp hstep
    obtain rfl := Option.some.inj heq
    rw [view_surfaces (find_insert_eq_update _ _ _)]
    exact .single (.enter (.inr ⟨rfl, of_decide_eq_true halive⟩))
  | dropClient surface =>
    obtain ⟨halive, heq⟩ := Option.ite_none_right_eq_some.mp hstep
    obtain rfl := Option.some.inj heq
    have hlast : view { s with surfaces := s.surfaces.insert surface .orphaned, resources := s.resources.mapValues fun _ r =>
          if r.surface = surface then { r with alive := false } else r } = { s.view with
        surface := Function.update s.view.surface surface (some .orphaned)
        resource := fun q => (s.view.resource q).map fun r => if r.surface = surface then { r with alive := false } else r } := by
      rw [view, find_insert_eq_update, View.mk.injEq]
      exact ⟨rfl, rfl, rfl, funext fun q => Map.find_mapValues _ _ q, rfl⟩
    rw [hlast]
    exact .single (.orphan s.view surface)
  | removeSurface surface =>
    obtain ⟨-, heq⟩ := Option.ite_none_right_eq_some.mp hstep
    obtain rfl := Option.some.inj heq
    exact removeSurface_moves h
  | setPointerLocation location =>
    obtain rfl := Option.some.inj hstep
    exact .refl

theorem sound_run {es : List (Event S R P G B)} (h : s.view.Sound)
    (hrun : Run (fun s e t => s.step plane e = some t) s es t) : t.view.Sound := by
  induction hrun with
  | nil s => exact h
  | cons hstep _ ih => exact ih (h.moves (step_moves h hstep))

end Steps

theorem initial_sound : (State.initial : State S R P G).view.Sound := by
  constructor <;> simp [State.initial, State.view, State.received, View.Live, Alternates]

def Event.source : Event S R P G B → Option R
  | .setRegion resource _ | .setCursorPositionHint resource _ | .destroyResource resource _ => some resource
  | _ => none

def State.Locked (s : State S R P G) : Prop :=
  ∃ active constraint, s.active = some active ∧ s.constraints.find active.surface = some constraint ∧
    constraint.handle.kind = .locked

variable {e : Event S R P G B} {resource : R}

theorem live_of_source (hsource : e.source = some resource)
    (hstep : s.step plane e = some t) : s.view.Live resource := by
  have hlive : ∀ {r}, s.live resource = some r → s.view.Live resource := by
    intro r hr
    obtain ⟨hfind, halive⟩ := Option.filter_eq_some_iff.mp hr
    exact ⟨r, hfind, halive⟩
  cases e with
  | setRegion other region =>
    obtain rfl := Option.some.inj hsource
    obtain ⟨r, hr, -⟩ := Option.map_eq_some_iff.mp hstep
    exact hlive hr
  | setCursorPositionHint other hint =>
    obtain rfl := Option.some.inj hsource
    obtain ⟨r, hr, -⟩ := Option.map_eq_some_iff.mp hstep
    exact hlive hr
  | destroyResource other space =>
    obtain rfl := Option.some.inj hsource
    obtain ⟨r, hr, -⟩ := Option.map_eq_some_iff.mp hstep
    exact hlive hr
  | _ => cases hsource

theorem step_source (hsource : e.source = some resource)
    (habsent : ∀ surface constraint, s.constraints.find surface = some constraint → constraint.handle.resource ≠ resource)
    (hstep : s.step plane e = some t) :
    t.constraints = s.constraints ∧ t.active = s.active ∧ t.location = s.location := by
  cases e with
  | setRegion other region =>
    obtain rfl := Option.some.inj hsource
    obtain ⟨r, -, rfl⟩ := Option.map_eq_some_iff.mp hstep
    have hkept : s.setRegion r.surface other r.kind region = s :=
      congrArg (fun constraints => { s with constraints })
        (Map.modify_eq_self fun c hc => if_neg fun hand => habsent r.surface c hc hand.2)
    grind
  | setCursorPositionHint other hint =>
    obtain rfl := Option.some.inj hsource
    obtain ⟨r, -, rfl⟩ := Option.map_eq_some_iff.mp hstep
    have hkept : s.setCursorHint plane r.surface other hint = s :=
      congrArg (fun constraints => { s with constraints })
        (Map.modify_eq_self fun c hc => if_neg fun hand => habsent r.surface c hc hand.2.1)
    grind
  | destroyResource other space =>
    obtain rfl := Option.some.inj hsource
    obtain ⟨r, -, rfl⟩ := Option.map_eq_some_iff.mp hstep
    dsimp only
    split
    · have hdetach : State.detachResource plane
          { s with resources := s.resources.modify other fun r => { r with alive := false } } r.surface other =
          ({ s with resources := s.resources.modify other fun r => { r with alive := false } }, none) := by
        rw [State.detachResource]
        cases hfind : s.constraints.find r.surface with
        | none => rfl
        | some constraint => exact if_neg (habsent _ constraint hfind)
      rw [hdetach]
      exact ⟨rfl, rfl, rfl⟩
    · exact ⟨rfl, rfl, rfl⟩
  | _ => cases hsource

theorem forwardPointerLocation_locked {proposed : P} {dnd kept : Bool} {focus : Option (S × P)} {space : Option B}
    (h : s.Locked) : s.forwardPointerLocation plane proposed dnd focus kept space = s := by
  obtain ⟨active, constraint, hactive, hfind, hkind⟩ := h
  rw [State.forwardPointerLocation]
  cases hlocation : s.location with
  | none => rfl
  | some previous =>
    have hmotion : s.constrainMotion plane previous proposed = .locked previous := by
      simp only [State.constrainMotion, hactive, hfind, hkind, if_true]
    simp only [hmotion, State.emitsMotion, ConstraintMotion.location, Bool.false_eq_true, if_false, ← hlocation, ite_self]

/-- The life of pointer constraints, whatever the clients, the seat and the surfaces do. -/
theorem run_bracketed {es : List (Event S R P G B)} (hrun : Run (fun s e t => s.step plane e = some t) .initial es s) :
    (∀ active, s.active = some active → ∃ constraint, s.constraints.find active.surface = some constraint ∧
        constraint.handle.surface = active.surface) ∧ (∀ resource, Alternates (s.received resource)) ∧
      (∀ q r, s.view.Live q → s.view.Live r → (s.received q).length % 2 = 1 → (s.received r).length % 2 = 1 → q = r) ∧
      (∀ resource r, s.resources.find resource = some r → r.lifetime = some .oneShot →
        (s.received resource).countP ConstraintEvent.activates ≤ 1) ∧ ∀ e t, s.step plane e = some t →
        (∀ resource, s.view.Retired resource → t.view.Retired resource ∧ t.received resource = s.received resource ∧
            (e.source = some resource →
              t.constraints = s.constraints ∧ t.active = s.active ∧ t.location = s.location)) ∧
          (s.Locked → ∀ proposed dnd focus kept space, e = .motion proposed dnd focus kept space → t = s) := by
  have hsound := sound_run initial_sound hrun
  refine ⟨?_, hsound.alternates, ?_, ?_, ?_⟩
  · intro active hactive
    obtain ⟨constraint, hfind⟩ := State.find_of_active hsound hactive
    exact ⟨constraint, hfind, (hsound.known active.surface (constraint.handle, constraint.lifetime)
      (by simp [State.view, hfind])).1⟩
  · intro q r hq hr hqodd hrodd
    obtain ⟨k, e, hactive, hfind, rfl⟩ := (hsound.odd_iff q hq).mp hqodd
    exact (View.Sound.holds_active hactive hfind).mp ((hsound.odd_iff r hr).mp hrodd)
  · intro resource r hfind hone
    have hlength := hsound.oneShot resource r hfind hone
    have hcount := (hsound.alternates resource).count_activates
    change (s.view.received resource).countP ConstraintEvent.activates ≤ 1
    omega
  · intro e t hstep
    refine ⟨fun resource hretired => ?_, ?_⟩
    · obtain ⟨hkept, hreceived⟩ := View.retired_moves (step_moves hsound hstep) hretired
      refine ⟨hkept, hreceived, fun hsource => step_source hsource ?_ hstep⟩
      rcases hretired.2 with hdead | habsent
      · exact absurd (live_of_source hsource hstep) hdead
      · intro surface constraint hfind
        exact habsent surface (constraint.handle, constraint.lifetime) (by simp [State.view, hfind])
    grind [forwardPointerLocation_locked, State.step]

def line : Plane Int (Int × Int) Unit where
  relative location origin := location - origin
  absolute origin place := origin + place
  contains region place := decide (region.1 ≤ place ∧ place < region.2)
  confine region current proposed := if region.1 ≤ proposed ∧ proposed < region.2 then some proposed else some current
  isFinite _ := true
  differs a b := decide (a ≠ b)
  zero := 0
  constrainLocation _ location := location

/-- A one-shot lock that ends, and a confinement of the same surface while the lock's resource still exists. -/
def replaced : List (Event Nat Nat Int (Int × Int) Unit) :=
  [.createSurface 0, .setPointerLocation 5, .lockOrConfine 1 0 .locked (some .oneShot) true (0, 9),
    .reconcile (some (0, 0)) none, .motion 7 false (some (0, 0)) true none, .clearPointerFocus,
    .lockOrConfine 2 0 .confined (some .persistent) true (0, 9), .setRegion 1 (0, 1),
    .reconcile (some (0, 0)) none, .destroyResource 1 none]

theorem run_bracketed_replaced : ∃ s : State Nat Nat Int (Int × Int),
    Run (fun s e t => s.step line e = some t) .initial replaced s ∧ s.log = [(1, .locked), (1, .unlocked), (2, .confined)] ∧
      s.location = some 5 ∧ ∀ resource, Alternates (s.received resource) := by
  have hrun : ∃ s : State Nat Nat Int (Int × Int), Run (fun s e t => s.step line e = some t) .initial replaced s ∧
      s.log = [(1, .locked), (1, .unlocked), (2, .confined)] ∧ s.location = some 5 :=
    ⟨_, .cons rfl (.cons rfl (.cons rfl (.cons rfl (.cons rfl (.cons rfl (.cons rfl (.cons rfl (.cons rfl
      (.cons rfl (.nil _)))))))))), rfl, rfl⟩
  obtain ⟨s, hs, hlog, hlocation⟩ := hrun
  exact ⟨s, hs, hlog, hlocation, (run_bracketed hs).2.1⟩

end TensorDE.Protocol.PointerConstraints
