import TensorDE.Lib.Trace
import TensorDE.Wm.SessionLockSound

set_option linter.dupNamespace false

namespace TensorDE.Wm.SessionLock

open TensorDE.Maps TensorDE.Trace List

variable {C I R S W : Type} [DecidableEq C] [DecidableEq I] [DecidableEq W]

/-- What clients, the outputs and the display pipeline do to the protocol. -/
inductive Event (C I R S W : Type) where
  | lock (resource : R)
  | getLockSurface (token : LockToken) (outputInstance : I) (output : C) (outputIsLive : Bool) (resource : S) (surface : W)
      (size : Nat × Nat)
  | ackConfigure (token : LockSurfaceToken) (serial : Nat)
  | destroyLock (token : LockToken)
  | unlockAndDestroy (token : LockToken)
  | dropLock (token : LockToken)
  | dropLockSurface (token : LockSurfaceToken)
  | dropSurface (surface : W)
  | frameSubmitted (output : C) (timeline : Nat)
  | frameCompleted (output : C) (timeline : Nat)
  | outputAdded (output : C) (size : Nat × Nat)
  | outputRemoved (output : C)

/-- The resources that clients have not destroyed. -/
structure Alive (R S : Type) where
  lock : R → Bool
  surface : S → Bool

variable (p : SessionLockProtocol C I R S W)

/-- The lock that is told that it has the session, and the protocol afterwards; nothing where the
tokens are exhausted. -/
def Event.run (outputs : List C) (alive : Alive R S) :
    Event C I R S W → Option (Option R × SessionLockProtocol C I R S W)
  | .lock resource => p.allocateLock.map fun allocated =>
    let begun := allocated.2.registerLock allocated.1 resource outputs
    (if begun.1 = .locked then some resource else none, begun.2)
  | .getLockSurface token outputInstance output outputIsLive resource surface size =>
    if p.canAddSurface token outputInstance then
      p.allocateSurface.map fun allocated =>
        let inserted := (allocated.2.insertSurface
          ⟨allocated.1, token, outputInstance, output, outputIsLive, resource, surface⟩).2
        (none, (inserted.configureSurface alive.surface allocated.1 size).2)
    else some (none, p)
  | .ackConfigure token serial => some (none, (p.ackConfigure alive.surface token serial).2)
  | .destroyLock token => some (none, (p.requestDestroy token).2)
  | .unlockAndDestroy token => some (none, (p.requestUnlock token).2)
  | .dropLock token => some (none, (p.dropLockResource token).2)
  | .dropLockSurface token => some (none, (p.removeSurfaceToken token).2)
  | .dropSurface surface => some (none, (p.removeWlSurface surface).2)
  | .frameSubmitted output timeline => some (none, p.frameSubmitted output timeline)
  | .frameCompleted output timeline => some (p.frameCompleted alive.lock output timeline)
  | .outputAdded output size => some (none, (p.outputAdded output).configureOutput output size)
  | .outputRemoved output =>
    some ((p.outputRemoved alive.lock output).1.2, (p.outputRemoved alive.lock output).2)

def Event.outputs (present : List C) : Event C I R S W → List C
  | .outputAdded output _ => if output ∈ present then present else present ++ [output]
  | .outputRemoved output => present.filter fun o => o ≠ output
  | _ => present

def Event.gate (output : C) (gate : Option OutputGate) : Event C I R S W → Option OutputGate
  | .frameSubmitted o timeline =>
    if o = output ∧ gate = some .needsSubmit then some (.waitingForVBlank timeline) else gate
  | .frameCompleted o timeline => if o = output ∧ gate = some (.waitingForVBlank timeline) then none else gate
  | .outputAdded o _ => if o = output then some .needsSubmit else gate
  | .outputRemoved o => if o = output then none else gate
  | _ => gate

variable (output : C)

def Event.adds : Event C I R S W → Bool
  | .outputAdded o _ => o = output
  | _ => false

def sinceAdded (since : List (Event C I R S W)) : List (Event C I R S W) :=
  since.foldl (fun after e => if e.adds output then [] else after ++ [e]) []

/-- Since it was last added, the output has gone, or it has shown a frame that was submitted since. -/
def Cleared (since : List (Event C I R S W)) : Prop :=
  .outputRemoved output ∈ sinceAdded output since
    ∨ ∃ timeline before after, sinceAdded output since = before ++ after
        ∧ .frameSubmitted output timeline ∈ before ∧ .frameCompleted output timeline ∈ after

namespace SessionLockProtocol

variable {p p' : SessionLockProtocol C I R S W}

/-- Everything an event may do to the phase, and whom it tells. -/
inductive Moved (p : SessionLockProtocol C I R S W) (outputs : List C) (e : Event C I R S W) :
    Option R → SessionPhase C → Prop
  | stays : p.pendingLock = none → Moved p outputs e none p.phase
  | begun {resource : R} : p.phase = .unlocked → e = .lock resource →
      Moved p outputs e none (.pending p.nextLock (gates outputs))
  | begunLocked {resource : R} : p.phase = .unlocked → e = .lock resource → (gates outputs).isEmpty →
      Moved p outputs e (some resource) (.locked (some p.nextLock))
  | waits {l : LockToken} {g g' : Map C OutputGate} : p.phase = .pending l g →
      (∀ o, g'.find o = e.gate o (g.find o)) → Moved p outputs e none (.pending l g')
  | confirmed {l : LockToken} {g g' : Map C OutputGate} {told : Option R} : p.phase = .pending l g →
      (∀ o, g'.find o = e.gate o (g.find o)) → g'.isEmpty → Moved p outputs e told (.locked (some l))
  | cancelled {l : LockToken} : p.pendingLock = some l → Moved p outputs e none .unlocked
  | unlocked {l : LockToken} : e = .unlockAndDestroy l → p.controller = some l → Moved p outputs e none .unlocked
  | orphaned {l : LockToken} : e = .dropLock l → p.controller = some l → Moved p outputs e none (.locked none)

section Phases

omit [DecidableEq I] [DecidableEq W]

@[simp] theorem deactivateLockSurfaces_phase (p : SessionLockProtocol C I R S W) (token : LockToken) :
    (p.deactivateLockSurfaces token).phase = p.phase := by
  rw [deactivateLockSurfaces]
  split <;> rfl

omit [DecidableEq C] in
@[simp] theorem removeUnusedLock_phase (p : SessionLockProtocol C I R S W) (token : LockToken) :
    (p.removeUnusedLock token).phase = p.phase := by
  grind [removeUnusedLock]

omit [DecidableEq C] in
@[simp] theorem forgetSurface_phase [DecidableEq I] (p : SessionLockProtocol C I R S W) (lock : LockToken) (output : I)
    (token : LockSurfaceToken) : (p.forgetSurface lock output token).phase = p.phase := by
  grind [forgetSurface]

omit [DecidableEq C] in
@[simp] theorem configureSurface_phase (p : SessionLockProtocol C I R S W) (alive : S → Bool) (token : LockSurfaceToken)
    (size : Nat × Nat) : (p.configureSurface alive token size).2.phase = p.phase := by
  rw [configureSurface]
  simp only
  split <;> rfl

omit [DecidableEq C] in
@[simp] theorem ackConfigure_phase (p : SessionLockProtocol C I R S W) (alive : S → Bool) (token : LockSurfaceToken)
    (serial : Nat) : (p.ackConfigure alive token serial).2.phase = p.phase := by
  grind +splitImp +splitIndPred [ackConfigure, configureSurface_phase]

@[simp] theorem configureOutput_phase (p : SessionLockProtocol C I R S W) (output : C) (size : Nat × Nat) :
    (p.configureOutput output size).phase = p.phase := by
  rw [configureOutput]
  split
  · rfl
  · simp only
    split <;> rfl

@[simp] theorem clearOutput_phase [DecidableEq I] (p : SessionLockProtocol C I R S W) (output : C) :
    (p.clearOutput output).2.phase = p.phase := by
  grind +splitImp +splitIndPred [clearOutput, forgetSurface_phase]

@[simp] theorem insertSurface_phase [DecidableEq I] [DecidableEq W] (p : SessionLockProtocol C I R S W)
    (registration : LockSurfaceRegistration C I S W) : (p.insertSurface registration).2.phase = p.phase := by
  rw [insertSurface]
  split <;> rfl

@[simp] theorem removeSurfaceToken_phase [DecidableEq I] [DecidableEq W] (p : SessionLockProtocol C I R S W)
    (token : LockSurfaceToken) : (p.removeSurfaceToken token).2.phase = p.phase := by
  rw [removeSurfaceToken]
  grind [removeUnusedLock_phase, forgetSurface_phase]

@[simp] theorem removeWlSurface_phase [DecidableEq I] [DecidableEq W] (p : SessionLockProtocol C I R S W) (surface : W) :
    (p.removeWlSurface surface).2.phase = p.phase := by
  grind [removeWlSurface, removeSurfaceToken_phase]

end Phases

section Moves

variable {outputs : List C} {alive : Alive R S} {e : Event C I R S W} {token : LockToken}

omit [DecidableEq I] [DecidableEq W]

theorem Moved.kept (hphase : p'.phase = p.phase) (hgate : ∀ o g, e.gate o g = g) : Moved p outputs e none p'.phase := by
  rw [hphase]
  cases hp : p.phase with
  | pending l g => exact .waits hp fun o => (hgate o _).symm
  | unlocked => exact hp ▸ .stays (by rw [pendingLock, hp])
  | locked controller => exact hp ▸ .stays (by rw [pendingLock, hp])

omit [DecidableEq C] in
theorem pendingLock_none (hp : ∀ l g, p.phase ≠ .pending l g) : p.pendingLock = none := by
  grind [pendingLock]

theorem registerLock_moved (p : SessionLockProtocol C I R S W) (resource : R) (outputs : List C) :
    Moved p outputs (.lock resource)
      (if (({ p with nextLock := p.nextLock + 1 }).registerLock p.nextLock resource outputs).1 = .locked
        then some resource else none)
      (({ p with nextLock := p.nextLock + 1 }).registerLock p.nextLock resource outputs).2.phase := by
  rw [registerLock]
  cases hp : p.phase with
  | unlocked =>
    by_cases hempty : (gates outputs).isEmpty
    · rw [if_pos hempty]
      exact .begunLocked hp rfl hempty
    · rw [if_neg hempty]
      exact .begun hp rfl
  | pending l g => exact .waits hp fun o => rfl
  | locked controller =>
    have hstays : Moved p outputs (.lock resource) none p.phase := .stays (by rw [pendingLock, hp])
    rw [hp] at hstays
    exact hstays

theorem requestDestroy_moved (p : SessionLockProtocol C I R S W) (token : LockToken) :
    Moved p outputs (.destroyLock token) none (p.requestDestroy token).2.phase := by
  rw [requestDestroy]
  split
  · exact .kept rfl fun o g => rfl
  · exact .kept rfl fun o g => rfl
  · split_ifs with hp
    · rw [deactivateLockSurfaces_phase]
      exact .cancelled hp
    · exact .kept rfl fun o g => rfl
  · exact .kept rfl fun o g => rfl

theorem requestUnlock_moved (p : SessionLockProtocol C I R S W) (token : LockToken) :
    Moved p outputs (.unlockAndDestroy token) none (p.requestUnlock token).2.phase := by
  rw [requestUnlock]
  split_ifs with hno
  · exact .kept rfl fun o g => rfl
  · rw [deactivateLockSurfaces_phase]
    exact .unlocked rfl (not_not.mp (not_or.mp hno).2)

theorem dropLockResource_moved (p : SessionLockProtocol C I R S W) (token : LockToken) :
    Moved p outputs (.dropLock token) none (p.dropLockResource token).2.phase := by
  rw [dropLockResource]
  split
  · exact .kept rfl fun o g => rfl
  · split_ifs with hpend hctl
    · rw [removeUnusedLock_phase, deactivateLockSurfaces_phase]
      exact .cancelled hpend.2
    · rw [removeUnusedLock_phase, deactivateLockSurfaces_phase]
      exact .orphaned rfl hctl.2
    · rw [removeUnusedLock_phase]
      exact .kept rfl fun o g => rfl

theorem frameSubmitted_moved (p : SessionLockProtocol C I R S W) (output : C) (timeline : Nat) :
    Moved p outputs (.frameSubmitted output timeline) none (p.frameSubmitted output timeline).phase := by
  rw [frameSubmitted]
  split
  · rename_i l g hp
    split_ifs with hneeds
    · refine .waits hp fun o => ?_
      grind [Map.find_insert, Event.gate]
    · rw [hp]
      refine .waits hp fun o => ?_
      grind [Event.gate]
  · rename_i hp
    exact .stays (pendingLock_none hp)

theorem frameCompleted_moved (p : SessionLockProtocol C I R S W) (alive : R → Bool) (output : C) (timeline : Nat) :
    Moved p outputs (.frameCompleted output timeline) (p.frameCompleted alive output timeline).1
      (p.frameCompleted alive output timeline).2.phase := by
  rw [frameCompleted]
  split
  · rename_i l g hp
    have hgone : g.find output = some (.waitingForVBlank timeline) → ∀ o, (g.erase output).find o
        = (Event.frameCompleted output timeline : Event C I R S W).gate o (g.find o) := by
      intro hwaits o
      rw [Map.find_erase, Event.gate]
      by_cases ho : o = output
      · rw [if_pos ho, if_pos ⟨ho.symm, ho ▸ hwaits⟩]
      · rw [if_neg ho, if_neg fun h => ho h.1.symm]
    split_ifs with hno hempty
    · rw [hp]
      refine .waits hp fun o => ?_
      grind [Event.gate]
    · exact .confirmed hp (hgone (not_not.mp hno)) hempty
    · exact .waits hp (hgone (not_not.mp hno))
  · rename_i hp
    exact .stays (pendingLock_none hp)

theorem outputAdded_moved (p : SessionLockProtocol C I R S W) (output : C) (size : Nat × Nat) :
    Moved p outputs (.outputAdded output size) none ((p.outputAdded output).configureOutput output size).phase := by
  rw [configureOutput_phase, outputAdded]
  split
  · rename_i l g hp
    refine .waits hp fun o => ?_
    grind [Map.find_insert, Event.gate]
  · rename_i hp
    exact .stays (pendingLock_none hp)

theorem outputRemoved_moved [DecidableEq I] (p : SessionLockProtocol C I R S W) (alive : R → Bool) (output : C) :
    Moved p outputs (.outputRemoved output) (p.outputRemoved alive output).1.2 (p.outputRemoved alive output).2.phase := by
  rw [outputRemoved]
  simp only [clearOutput_phase]
  split
  · rename_i l g hp
    have hgone : ∀ o, (g.erase output).find o
        = (Event.outputRemoved output : Event C I R S W).gate o (g.find o) := by
      intro o
      rw [Map.find_erase, Event.gate]
      by_cases ho : o = output
      · rw [if_pos ho, if_pos ho.symm]
      · rw [if_neg ho, if_neg fun h => ho h.symm]
    split_ifs with hempty
    · exact .confirmed hp hgone hempty
    · exact .waits hp hgone
  · rename_i hp
    rw [clearOutput_phase]
    exact .stays (pendingLock_none hp)

end Moves

section Steps

variable {outputs : List C} {alive : Alive R S} {e : Event C I R S W} {told : Option R}

theorem run_sound (h : p.Sound) (hrun : e.run p outputs alive = some (told, p')) : p'.Sound := by
  cases e with
  | lock resource => grind [Event.run, allocateLock, registerLock_sound]
  | getLockSurface token outputInstance output outputIsLive resource surface size =>
    grind -linarith [Event.run, allocateSurface, configureSurface_sound, insertSurface_sound]
  | ackConfigure token serial =>
    cases hrun
    exact ackConfigure_sound h _ _ _
  | destroyLock token =>
    cases hrun
    exact requestDestroy_sound h token
  | unlockAndDestroy token =>
    cases hrun
    exact requestUnlock_sound h token
  | dropLock token =>
    cases hrun
    exact dropLockResource_sound h token
  | dropLockSurface token =>
    cases hrun
    exact removeSurfaceToken_sound h token
  | dropSurface surface =>
    cases hrun
    exact removeWlSurface_sound h surface
  | frameSubmitted output timeline =>
    cases hrun
    exact frameSubmitted_sound h output timeline
  | frameCompleted output timeline => grind [frameCompleted_sound, Event.run]
  | outputAdded output size =>
    cases hrun
    exact configureOutput_sound (outputAdded_sound h output) output size
  | outputRemoved output =>
    cases hrun
    exact outputRemoved_sound h alive.lock output

theorem run_moved (hrun : e.run p outputs alive = some (told, p')) : Moved p outputs e told p'.phase := by
  cases e with
  | lock resource => grind [Event.run, allocateLock, registerLock_moved]
  | getLockSurface token outputInstance output outputIsLive resource surface size =>
    rw [Event.run] at hrun
    split_ifs at hrun
    · rw [allocateSurface] at hrun
      split_ifs at hrun
      · cases hrun
        exact .kept ((configureSurface_phase _ _ _ _).trans (insertSurface_phase _ _)) fun o g => rfl
      · cases hrun
    · cases hrun
      exact .kept rfl fun o g => rfl
  | ackConfigure token serial =>
    cases hrun
    exact .kept (ackConfigure_phase p _ _ _) fun o g => rfl
  | destroyLock token =>
    cases hrun
    exact requestDestroy_moved p token
  | unlockAndDestroy token =>
    cases hrun
    exact requestUnlock_moved p token
  | dropLock token =>
    cases hrun
    exact dropLockResource_moved p token
  | dropLockSurface token =>
    cases hrun
    exact .kept (removeSurfaceToken_phase p token) fun o g => rfl
  | dropSurface surface =>
    cases hrun
    exact .kept (removeWlSurface_phase p surface) fun o g => rfl
  | frameSubmitted output timeline =>
    cases hrun
    exact frameSubmitted_moved p output timeline
  | frameCompleted output timeline => grind [Event.run, frameCompleted_moved]
  | outputAdded output size =>
    cases hrun
    exact outputAdded_moved p output size
  | outputRemoved output =>
    cases hrun
    exact outputRemoved_moved p alive.lock output

omit [DecidableEq C] [DecidableEq I] [DecidableEq W] in
variable {l : LockToken} {r : R}

theorem confirm_told {alive : R → Bool} (htold : (p.confirm alive l).1 = some r) :
    ∃ record, (p.confirm alive l).2.locks.find l = some record ∧ record.resource = some r := by
  rw [confirm, Option.bind_eq_some_iff] at htold
  obtain ⟨record, hr, hres⟩ := htold
  exact ⟨_, find_setStatus_self hr .locked, (Option.filter_eq_some_iff.mp hres).1⟩

theorem run_told (hrun : e.run p outputs alive = some (told, p')) (htold : told = some r) :
    ∃ l record, p'.phase = .locked (some l) ∧ p'.locks.find l = some record ∧ record.resource = some r := by
  subst htold
  cases e with
  | lock resource =>
    rw [Event.run, allocateLock] at hrun
    split_ifs at hrun
    · rw [Option.map_some, Option.some.injEq, registerLock] at hrun
      cases hp : p.phase with
      | unlocked =>
        simp only [hp] at hrun
        by_cases hempty : (gates outputs).isEmpty
        · rw [if_pos hempty] at hrun
          cases hrun
          exact ⟨_, _, rfl, (Map.find_insert ..).trans (if_pos rfl), rfl⟩
        grind
      | pending l g =>
        simp only [hp] at hrun
        cases hrun
      | locked controller =>
        simp only [hp] at hrun
        cases hrun
    · cases hrun
  | getLockSurface token outputInstance output outputIsLive resource surface size =>
    rw [Event.run] at hrun
    split_ifs at hrun
    · obtain ⟨allocated, -, heq⟩ := Option.map_eq_some_iff.mp hrun
      cases heq
    · cases hrun
  | frameCompleted output timeline =>
    rw [Event.run, Option.some.injEq, frameCompleted] at hrun
    split at hrun
    · split_ifs at hrun
      · cases hrun
      · obtain ⟨htold, rfl⟩ := Prod.mk.inj hrun
        exact ⟨_, _, rfl, (confirm_told htold).choose_spec⟩
      · cases hrun
    · cases hrun
  | outputRemoved output =>
    rw [Event.run, Option.some.injEq, outputRemoved] at hrun
    split at hrun
    · split_ifs at hrun
      · obtain ⟨htold, rfl⟩ := Prod.mk.inj hrun
        exact ⟨_, _, rfl, (confirm_told htold).choose_spec⟩
      · cases hrun
    · cases hrun
  | ackConfigure | destroyLock | unlockAndDestroy | dropLock | dropLockSurface | dropSurface | frameSubmitted
  | outputAdded => cases hrun

omit [DecidableEq W] in
theorem dropLockResource_phase (h : p.Sound) (hl : p.controller = some l) :
    (p.dropLockResource l).2.phase = .locked none := by
  obtain ⟨record, hr, hs⟩ := h.controlled l hl
  rw [dropLockResource, hr]
  simp only
  rw [if_neg (by rw [hs]; rintro ⟨hno, -⟩; cases hno), if_pos ⟨hs, hl⟩]
  simp

end Steps

end SessionLockProtocol

section Gates

variable {output : C} {since : List (Event C I R S W)} {e : Event C I R S W}

omit [DecidableEq I] [DecidableEq W]

theorem sinceAdded_snoc (he : e.adds output = false) :
    sinceAdded output (since ++ [e]) = sinceAdded output since ++ [e] := by
  rw [sinceAdded, foldl_append, foldl_cons, foldl_nil, he]
  rfl

theorem Cleared.snoc (h : Cleared output since) (he : e.adds output = false) : Cleared output (since ++ [e]) := by
  grind -linarith [Cleared, sinceAdded_snoc]

/-- What the gate of an output says about the events so far. -/
def Gated (output : C) (since : List (Event C I R S W)) : Option OutputGate → Prop
  | none => Cleared output since
  | some .needsSubmit => True
  | some (.waitingForVBlank timeline) => .frameSubmitted output timeline ∈ sinceAdded output since

theorem Gated.snoc {gate : Option OutputGate} (h : Gated output since gate) (he : e.adds output = false) :
    Gated output (since ++ [e]) gate := by
  cases gate with
  | none => exact Cleared.snoc h he
  | some gate =>
    cases gate with
    | needsSubmit => trivial
    | waitingForVBlank timeline =>
      rw [Gated, sinceAdded_snoc he]
      exact mem_append_left _ h

theorem gated_gate {gate : Option OutputGate} (h : e.adds output = false → Gated output since gate) :
    Gated output (since ++ [e]) (e.gate output gate) := by
  cases e with
  | frameSubmitted o timeline =>
    rw [Event.gate]
    split_ifs with hcond
    · rw [Gated, sinceAdded_snoc rfl, ← hcond.1]
      simp
    · exact (h rfl).snoc rfl
  | frameCompleted o timeline =>
    rw [Event.gate]
    split_ifs with hcond
    · grind -linarith [Gated, Cleared, sinceAdded_snoc, Event.adds]
    · exact (h rfl).snoc rfl
  | outputAdded o size =>
    rw [Event.gate]
    split_ifs with ho
    · trivial
    · exact (h (decide_eq_false ho)).snoc (decide_eq_false ho)
  | outputRemoved o =>
    rw [Event.gate]
    split_ifs with ho
    · rw [Gated, Cleared, sinceAdded_snoc rfl, ← ho]
      simp
    · exact (h rfl).snoc rfl
  | lock | getLockSurface | ackConfigure | destroyLock | unlockAndDestroy | dropLock | dropLockSurface | dropSurface =>
    exact (h rfl).snoc rfl

end Gates

/-- The protocol, the outputs that are there, and what has happened since the last lock began with
the outputs that were there then. -/
structure Session (C I R S W : Type) where
  protocol : SessionLockProtocol C I R S W
  present : List C
  first : List C
  since : List (Event C I R S W)

def Event.begins : Event C I R S W → Bool
  | .lock _ => !p.isLocked
  | _ => false

namespace Session

def start : Session C I R S W := ⟨SessionLockProtocol.new, [], [], []⟩

variable (q : Session C I R S W)

def step (alive : Alive R S) (e : Event C I R S W) : Option (Option R × Session C I R S W) :=
  (e.run q.protocol q.present alive).map fun done =>
    (done.1, if e.begins q.protocol then ⟨done.2, e.outputs q.present, q.present, []⟩
      else ⟨done.2, e.outputs q.present, q.first, q.since ++ [e]⟩)

def Step (e : Event C I R S W) (q' : Session C I R S W) : Prop :=
  ∃ alive told, q.step alive e = some (told, q')

/-- An output that has been there at some time since the lock began. -/
def Awaited (output : C) : Prop := output ∈ q.first ∨ ∃ e ∈ q.since, e.adds output

def Locked : Prop := ∃ controller, q.protocol.phase = .locked controller

structure Kept (q : Session C I R S W) : Prop where
  sound : q.protocol.Sound
  watched : ∀ l g, q.protocol.phase = .pending l g → ∀ output, q.Awaited output → Gated output q.since (g.find output)

variable {q q' : Session C I R S W} {alive : Alive R S} {e : Event C I R S W} {told : Option R}

omit [DecidableEq W] in
theorem start_kept : (start : Session C I R S W).Kept := by
  refine ⟨⟨nofun, nofun, nofun, fun l record hr => ?_, fun output token ht => ?_, fun l record hr => ?_,
    fun token record hr => ?_⟩, nofun⟩
  · exact absurd hr (by simp [start, SessionLockProtocol.new])
  · exact absurd ht (by simp [start, SessionLockProtocol.new])
  · exact absurd hr (by simp [start, SessionLockProtocol.new])
  · exact absurd hr (by simp [start, SessionLockProtocol.new])

theorem step_run (h : q.step alive e = some (told, q')) : e.run q.protocol q.present alive = some (told, q'.protocol)
      ∧ (e.begins q.protocol = true → q'.first = q.present ∧ q'.since = [])
      ∧ (e.begins q.protocol = false → q'.first = q.first ∧ q'.since = q.since ++ [e]) := by
  obtain ⟨done, hrun, heq⟩ := Option.map_eq_some_iff.mp h
  grind -linarith

variable {output : C}

theorem step_gated (hq : q.Kept) (h : q.step alive e = some (told, q')) {l : LockToken} {g : Map C OutputGate}
    (hphase : q.protocol.phase = .pending l g) (hawaited : q'.Awaited output) :
    Gated output q'.since (e.gate output (g.find output)) := by
  have hcontinues : e.begins q.protocol = false := by
    cases e with
    | lock resource => rw [Event.begins, SessionLockProtocol.isLocked, hphase]; rfl
    | _ => rfl
  obtain ⟨hfirst, hsince⟩ := (step_run h).2.2 hcontinues
  grind -linarith [gated_gate, hq.watched, Awaited]

theorem step_begun (h : q.step alive e = some (told, q')) (hphase : q.protocol.phase = .unlocked) {resource : R}
    (he : e = .lock resource) (hawaited : q'.Awaited output) : output ∈ q.present := by
  obtain ⟨hfirst, hsince⟩ := (step_run h).2.1 (by rw [he, Event.begins, SessionLockProtocol.isLocked, hphase]; rfl)
  grind [Awaited]

theorem step_kept (hq : q.Kept) (h : q.step alive e = some (told, q')) : q'.Kept := by
  obtain ⟨hrun, -⟩ := step_run h
  refine ⟨SessionLockProtocol.run_sound hq.sound hrun, fun l g hpending output hawaited => ?_⟩
  have hmoved := SessionLockProtocol.run_moved hrun
  generalize q'.protocol.phase = phase' at hpending hmoved
  cases hmoved with
  | stays hnone => grind [SessionLockProtocol.pendingLock]
  | begun hphase he =>
    cases hpending
    rw [SessionLockProtocol.find_gates, if_pos (step_begun h hphase he hawaited)]
    trivial
  | waits hphase hgates => grind [step_gated]
  | begunLocked | confirmed | cancelled | unlocked | orphaned => cases hpending

theorem step_locks (hq : q.Kept) (h : q.step alive e = some (told, q')) (hno : ¬ q.Locked) (hlocked : q'.Locked) (hawaited : q'.Awaited output) : Cleared output q'.since := by
  obtain ⟨controller, hphase'⟩ := hlocked
  have hmoved := SessionLockProtocol.run_moved (step_run h).1
  generalize q'.protocol.phase = phase' at hphase' hmoved
  cases hmoved with
  | stays => exact absurd ⟨controller, hphase'⟩ hno
  | begunLocked hphase he hempty =>
    have hfind := Map.isEmpty_iff.mp hempty output
    grind [SessionLockProtocol.find_gates, step_begun]
  | confirmed hphase hgates hempty =>
    have hgated := step_gated hq h hphase hawaited
    rw [← hgates, Map.isEmpty_iff.mp hempty output] at hgated
    exact hgated
  | orphaned he hcontroller => exact absurd ⟨_, SessionLockProtocol.phase_of_controller hcontroller⟩ hno
  | begun | waits | cancelled | unlocked => cases hphase'

theorem step_unlocks (h : q.step alive e = some (told, q')) (hlocked : q.Locked) (hno : ¬ q'.Locked) :
    ∃ l, e = .unlockAndDestroy l ∧ q.protocol.controller = some l := by
  obtain ⟨controller, hphase⟩ := hlocked
  have hmoved := SessionLockProtocol.run_moved (step_run h).1
  generalize hphase' : q'.protocol.phase = phase' at hmoved
  cases hmoved with
  | stays => exact absurd ⟨controller, hphase'.trans hphase⟩ hno
  | begun hold | begunLocked hold | waits hold | confirmed hold =>
    rw [hphase] at hold
    cases hold
  | cancelled hold => grind [SessionLockProtocol.pendingLock]
  | unlocked he hcontroller => exact ⟨_, he, hcontroller⟩
  | orphaned he hcontroller => exact absurd ⟨_, hphase'⟩ hno

theorem step_told (h : q.step alive e = some (told, q')) {r : R} (htold : told = some r) :
    ¬ q.Locked ∧ ∃ l record, q'.protocol.phase = .locked (some l) ∧ q'.protocol.locks.find l = some record
      ∧ record.resource = some r := by
  refine ⟨?_, SessionLockProtocol.run_told (step_run h).1 htold⟩
  rintro ⟨controller, hphase⟩
  have hmoved := SessionLockProtocol.run_moved (step_run h).1
  grind +splitImp +splitIndPred

theorem run_kept {es : List (Event C I R S W)} (run : Run Step start es q) : q.Kept :=
  run.invariant (P := Kept) (Q := fun _ => True)
    (fun _ _ _ hq _ hstep => step_kept hq hstep.choose_spec.choose_spec) start_kept fun _ _ => trivial

end Session

/-- The session lock over every run. -/
theorem session_lock_safety {q : Session C I R S W} {es : List (Event C I R S W)}
    (run : Run Session.Step Session.start es q) :
    (∀ l, q.protocol.pendingLock = some l → ∃ record, q.protocol.locks.find l = some record ∧ record.status = .pending)
    ∧ (∀ l, q.protocol.controller = some l → ∃ record, q.protocol.locks.find l = some record ∧ record.status = .locked)
    ∧ (∀ l k record, q.protocol.activeLock = some l → q.protocol.locks.find k = some record →
        record.status ≠ .finished → k = l) ∧ (∀ output token, q.protocol.activeOutputIndex.find output = some token →
        ∃ record, q.protocol.surfaces.find token = some record ∧ record.output = output
          ∧ q.protocol.activeLock = some record.lock) ∧ ∀ alive e told q', q.step alive e = some (told, q') →
        (q.Locked → ¬ q'.Locked → ∃ l, e = .unlockAndDestroy l ∧ q.protocol.controller = some l)
        ∧ (∀ l, e = .dropLock l → q.protocol.controller = some l → q'.protocol.phase = .locked none)
        ∧ (¬ q.Locked → q'.Locked → ∀ output, q'.Awaited output → Cleared output q'.since)
        ∧ (∀ r, told = some r → ¬ q.Locked ∧ ∃ l record, q'.protocol.phase = .locked (some l)
            ∧ q'.protocol.locks.find l = some record ∧ record.resource = some r) := by
  have hq := Session.run_kept run
  refine ⟨hq.sound.awaited, hq.sound.controlled, fun l k record hl hk hs => ?_, fun output token ht => ?_,
    fun alive e told q' hstep => ⟨Session.step_unlocks hstep, fun l he hl => ?_,
      fun hno hlocked output => Session.step_locks hq hstep hno hlocked, fun r => Session.step_told hstep⟩⟩
  · grind [hq.sound.finished]
  · grind [hq.sound.shown]
  · obtain ⟨hrun, -⟩ := Session.step_run hstep
    grind [Event.run, SessionLockProtocol.dropLockResource_phase, hq.sound]

theorem session_lock_safety_one_output : ∃ q q' : Session Nat Nat Nat Nat Nat,
    Run Session.Step Session.start [.outputAdded 5 (4, 3), .lock 7, .frameSubmitted 5 9] q
      ∧ q.step ⟨fun _ => true, fun _ => true⟩ (.frameCompleted 5 9) = some (some 7, q') ∧ Cleared 5 q'.since := by
  have run : Run Session.Step (Session.start : Session Nat Nat Nat Nat Nat)
      [.outputAdded 5 (4, 3), .lock 7, .frameSubmitted 5 9] _ :=
    .cons ⟨⟨fun _ => true, fun _ => true⟩, none, rfl⟩ (.cons ⟨⟨fun _ => true, fun _ => true⟩, none, rfl⟩
      (.cons ⟨⟨fun _ => true, fun _ => true⟩, none, rfl⟩ (.nil _)))
  refine ⟨_, _, run, rfl, ?_⟩
  refine ((session_lock_safety run).2.2.2.2 ⟨fun _ => true, fun _ => true⟩ (.frameCompleted 5 9) (some 7) _ rfl).2.2.1
    ?_ ⟨_, rfl⟩ 5 (.inl ?_)
  · rintro ⟨controller, hphase⟩
    cases hphase
  · decide

end TensorDE.Wm.SessionLock
