import TensorDE.Wm.SessionLock

set_option linter.dupNamespace false

namespace TensorDE.Wm.SessionLock.SessionLockProtocol

open TensorDE.Maps

variable {C I R S W : Type} [DecidableEq C] [DecidableEq I] [DecidableEq W] {p p' : SessionLockProtocol C I R S W}

def Listed (p : SessionLockProtocol C I R S W) (token : LockSurfaceToken) (record : LockSurfaceRecord C I S W) : Prop :=
  ∃ lock, p.locks.find record.lock = some lock ∧ lock.surfaces.find record.outputInstance = some token

structure Sound (p : SessionLockProtocol C I R S W) : Prop where
  awaited : ∀ l, p.pendingLock = some l → ∃ record, p.locks.find l = some record ∧ record.status = .pending
  controlled : ∀ l, p.controller = some l → ∃ record, p.locks.find l = some record ∧ record.status = .locked
  held : ∀ l record, p.activeLock = some l → p.locks.find l = some record → record.resource.isSome
  others : ∀ l record, p.locks.find l = some record → record.status ≠ .finished →
    p.activeLock = some l ∨ p.phase = .locked none
  shown : ∀ output token, p.activeOutputIndex.find output = some token → ∃ record,
    p.surfaces.find token = some record ∧ record.output = output ∧ p.activeLock = some record.lock
      ∧ p.Listed token record
  lockTokens : ∀ l record, p.locks.find l = some record → l < p.nextLock
  surfaceTokens : ∀ token record, p.surfaces.find token = some record → token < p.nextSurface

omit [DecidableEq C] [DecidableEq I] [DecidableEq W] in
theorem activeLock_eq : p.activeLock = p.pendingLock.or p.controller := by
  rw [activeLock, pendingLock, controller]
  cases p.phase <;> simp

section Phase

omit [DecidableEq I] [DecidableEq W]

theorem find_gates (outputs : List C) (output : C) :
    (gates outputs).find output = if output ∈ outputs then some .needsSubmit else none := by
  have hfold : ∀ (m : Map C OutputGate),
      (outputs.foldl (fun gates output => gates.insert output .needsSubmit) m).find output
        = if output ∈ outputs then some .needsSubmit else m.find output := by
    induction outputs with
    | nil => simp
    | cons o rest ih => grind [Map.find_insert]
  rw [gates, hfold, Map.find_empty]

omit [DecidableEq C] in
theorem phase_of_controller {l : LockToken} (h : p.controller = some l) : p.phase = .locked (some l) := by
  grind [controller]

end Phase

section Deactivate

omit [DecidableEq I] [DecidableEq W] in
theorem find_eraseWhen {K : Type} [DecidableEq K] (m : Map K LockSurfaceToken) (k j : K) (token : LockSurfaceToken) :
    (eraseWhen m k token).find j = if j = k ∧ m.find k = some token then none else m.find j := by
  grind [eraseWhen, Map.find_erase]

omit [DecidableEq I] [DecidableEq W] in
theorem find_deactivate {surfaces : Map LockSurfaceToken (LockSurfaceRecord C I S W)} {index : Map C LockSurfaceToken}
    {tokens : List LockSurfaceToken} {output : C} {token : LockSurfaceToken}
    (h : (deactivate surfaces index tokens).find output = some token) : index.find output = some token
      ∧ ∀ record, surfaces.find token = some record → record.output = output → token ∉ tokens := by
  induction tokens with
  | nil => exact ⟨h, fun record hr ho => List.not_mem_nil⟩
  | cons t rest ih => grind -linarith [deactivate, find_eraseWhen]

omit [DecidableEq W] in
/-- A lock that is given up takes every surface it shows off the outputs. -/
theorem Sound.deactivated (h : p.Sound) {l : LockToken} (hactive : p.activeLock = some l) {lock lock' : LockRecord I R}
    (hlock : p.locks.find l = some lock) (hs : p'.surfaces = p.surfaces)
    (hi : p'.activeOutputIndex = p.activeOutputIndex) (hlock' : p'.locks.find l = some lock')
    (hsame : lock'.surfaces = lock.surfaces) :
    ∃ index, p'.deactivateLockSurfaces l = { p' with activeOutputIndex := index } ∧ ∀ output, index.find output = none := by
  rw [deactivateLockSurfaces, hlock', hs, hi]
  refine ⟨_, rfl, fun output => ?_⟩
  rw [Option.eq_none_iff_forall_ne_some]
  intro token hfind
  obtain ⟨hold, hnot⟩ := find_deactivate hfind
  obtain ⟨record, hr, ho, hmine, listing, hlisting, hinst⟩ := h.shown output token hold
  rw [hactive, Option.some.injEq] at hmine
  rw [← hmine, hlock, Option.some.injEq] at hlisting
  exact hnot record hr ho (Map.mem_values.mpr ⟨_, by rw [hsame, hlisting]; exact hinst⟩)

omit [DecidableEq W] in
theorem Sound.quiet (hactive : p.activeLock = none) (hindex : ∀ output, p.activeOutputIndex.find output = none)
    (hothers : ∀ l record, p.locks.find l = some record → record.status ≠ .finished → p.phase = .locked none)
    (hlocks : ∀ l record, p.locks.find l = some record → l < p.nextLock)
    (hsurfaces : ∀ token record, p.surfaces.find token = some record → token < p.nextSurface) : p.Sound where
  awaited := by
    grind [activeLock_eq]
  controlled := by
    grind [activeLock, phase_of_controller]
  held := by
    grind
  others := fun l record hl hs => .inr (hothers l record hl hs)
  shown := by
    grind
  lockTokens := hlocks
  surfaceTokens := hsurfaces

end Deactivate

section Locks

omit [DecidableEq W]

omit [DecidableEq C] [DecidableEq I] in
theorem find_setStatus (p : SessionLockProtocol C I R S W) (token : LockToken) (status : LockStatus) (l : LockToken) :
    (p.setStatus token status).locks.find l
      = (p.locks.find l).map fun record => if l = token then { record with status := status } else record := by
  rw [setStatus, Map.find_modify]
  cases p.locks.find l <;> split_ifs <;> rfl

variable {l : LockToken}

section

variable (h : p.Sound)
include h

theorem Sound.finished (hactive : p.activeLock = some l) {k : LockToken}
    {record : LockRecord I R} (hk : p.locks.find k = some record) (hne : k ≠ l) : record.status = .finished := by
  grind +splitImp +splitIndPred [activeLock]

theorem Sound.removeUnusedLock (token : LockToken) : (p.removeUnusedLock token).Sound := by
  rw [SessionLockProtocol.removeUnusedLock]
  cases ht : p.locks.find token with
  | none => exact h
  | some gone =>
    simp only
    split_ifs with hunused
    · rw [Bool.and_eq_true] at hunused
      have hidle : p.activeLock ≠ some token := by
        intro hactive
        have hres := h.held token gone hactive ht
        rw [Option.isSome_iff_ne_none] at hres
        exact hres (Option.isNone_iff_eq_none.mp hunused.1)
      have hfind : ∀ l record, (p.locks.erase token).find l = some record ↔ l ≠ token ∧ p.locks.find l = some record := by
        intro l record
        by_cases hl : l = token <;> simp
      refine ⟨fun l hl => ?_, fun l hl => ?_, fun l record hl hr => ?_, fun l record hr hs => ?_, fun o t hot => ?_,
        fun l record hr => ?_, h.surfaceTokens⟩
      · obtain ⟨record, hr, hs⟩ := h.awaited l hl
        refine ⟨record, (hfind l record).mpr ⟨fun heq => hidle ?_, hr⟩, hs⟩
        change p.pendingLock = some l at hl
        rw [activeLock_eq, hl, heq]
        rfl
      · obtain ⟨record, hr, hs⟩ := h.controlled l hl
        refine ⟨record, (hfind l record).mpr ⟨fun heq => hidle ?_, hr⟩, hs⟩
        rw [activeLock, phase_of_controller hl, heq]
      · exact h.held l record hl ((hfind l record).mp hr).2
      · exact h.others l record ((hfind l record).mp hr).2 hs
      · obtain ⟨record, hr, ho, hmine, listing, hlisting, hinst⟩ := h.shown o t hot
        refine ⟨record, hr, ho, hmine, listing, (hfind _ listing).mpr ⟨fun heq => hidle ?_, hlisting⟩, hinst⟩
        rw [hmine, heq]
      · exact h.lockTokens l record ((hfind l record).mp hr).2
    · exact h

/-- A change to the locks that keeps what the invariant reads of them. -/
theorem Sound.relock {locks : Map LockToken (LockRecord I R)}
    (hfind : ∀ l record', locks.find l = some record' → ∃ record, p.locks.find l = some record
      ∧ (record'.status ≠ .finished → record.status ≠ .finished) ∧ (p.activeLock = some l → record.resource = record'.resource))
    (hback : ∀ l record, p.locks.find l = some record → ∃ record', locks.find l = some record'
      ∧ (p.activeLock = some l → record'.status = record.status)
      ∧ ∀ output token, p.activeOutputIndex.find output = some token → ∀ s, p.surfaces.find token = some s →
          record.surfaces.find s.outputInstance = some token → record'.surfaces.find s.outputInstance = some token) :
    ({ p with locks := locks } : SessionLockProtocol C I R S W).Sound where
  awaited := by
    intro l hl
    obtain ⟨record, hr, hs⟩ := h.awaited l hl
    obtain ⟨record', hr', hs', -⟩ := hback l record hr
    refine ⟨record', hr', (hs' ?_).trans hs⟩
    change p.pendingLock = some l at hl
    rw [activeLock_eq, hl]
    rfl
  controlled := by
    intro l hl
    obtain ⟨record, hr, hs⟩ := h.controlled l hl
    obtain ⟨record', hr', hs', -⟩ := hback l record hr
    refine ⟨record', hr', (hs' ?_).trans hs⟩
    rw [activeLock, phase_of_controller hl]
  held := by
    intro l record' hl hr'
    obtain ⟨record, hr, -, hres⟩ := hfind l record' hr'
    rw [← hres hl]
    exact h.held l record hl hr
  others := by
    intro l record' hr' hs'
    obtain ⟨record, hr, hs, -⟩ := hfind l record' hr'
    exact h.others l record hr (hs hs')
  shown := by
    intro o t hot
    obtain ⟨s, hs, ho, hmine, listing, hlisting, hinst⟩ := h.shown o t hot
    obtain ⟨listing', hlisting', -, hkeep⟩ := hback s.lock listing hlisting
    exact ⟨s, hs, ho, hmine, listing', hlisting', hkeep o t hot s hs hinst⟩
  lockTokens := by
    intro l record' hr'
    obtain ⟨record, hr, -⟩ := hfind l record' hr'
    exact h.lockTokens l record hr
  surfaceTokens := h.surfaceTokens

theorem Sound.rephase {outputs outputs' : Map C OutputGate} (hphase : p.phase = .pending l outputs) :
    ({ p with phase := .pending l outputs' } : SessionLockProtocol C I R S W).Sound := by
  obtain ⟨phase, locks, surfaces, surfaceIndex, activeOutputIndex, nextLock, nextSurface, nextSerial⟩ := p
  cases hphase
  exact ⟨h.awaited, h.controlled, h.held, fun l record hr hs => .inl ((h.others l record hr hs).resolve_right nofun),
    h.shown, h.lockTokens, h.surfaceTokens⟩

theorem Sound.confirm (alive : R → Bool) {outputs : Map C OutputGate}
    (hphase : p.phase = .pending l outputs) : (p.confirm alive l).2.Sound := by
  have hactive : p.activeLock = some l := by rw [activeLock, hphase]
  obtain ⟨record, hr, hs⟩ := h.awaited l (by rw [pendingLock, hphase])
  have hfind := p.find_setStatus l .locked
  refine ⟨nofun, fun k hk => ?_, fun k record' hk hr' => ?_, fun k record' hr' hs' => ?_, fun o t hot => ?_,
    fun k record' hr' => ?_, h.surfaceTokens⟩
  · cases hk
    grind [SessionLockProtocol.confirm]
  · cases hk
    grind [SessionLockProtocol.confirm, h.held]
  · rw [SessionLockProtocol.confirm, hfind, Option.map_eq_some_iff] at hr'
    by_cases hk : k = l
    · exact .inl (by rw [hk]; rfl)
    grind [h.finished]
  · obtain ⟨s, hsurface, ho, hmine, listing, hlisting, hinst⟩ := h.shown o t hot
    rw [hactive] at hmine
    refine ⟨s, hsurface, ho, hmine, _, by rw [SessionLockProtocol.confirm, hfind, hlisting]; rfl, ?_⟩
    split_ifs <;> exact hinst
  · rw [SessionLockProtocol.confirm, hfind, Option.map_eq_some_iff] at hr'
    obtain ⟨old, hold, -⟩ := hr'
    exact h.lockTokens k old hold

end

end Locks

section Requests

variable {token : LockToken}

omit [DecidableEq W]

variable {record : LockRecord I R}

/-- Unlocking, or cancelling, the active lock: its record ends and nothing is shown any more. -/
theorem Sound.ended (h : p.Sound) (hactive : p.activeLock = some token)
    (hr : p.locks.find token = some record) {locks : Map LockToken (LockRecord I R)} {phase : SessionPhase C}
    (hphase : ({ p with phase := phase } : SessionLockProtocol C I R S W).activeLock = none)
    (hfind : ∀ l, locks.find l = if l = token then (locks.find token) else p.locks.find l)
    {record' : LockRecord I R} (hr' : locks.find token = some record') (hsame : record'.surfaces = record.surfaces)
    (hend : record'.status = .finished ∨ phase = .locked none) :
    (deactivateLockSurfaces { p with phase := phase, locks := locks } token).Sound := by
  obtain ⟨index, heq, hempty⟩ : ∃ index, deactivateLockSurfaces { p with phase := phase, locks := locks } token
      = { p with phase := phase, locks := locks, activeOutputIndex := index } ∧ ∀ output, index.find output = none :=
    h.deactivated hactive hr rfl rfl hr' hsame
  rw [heq]
  refine Sound.quiet hphase hempty (fun l k hk hs => ?_) (fun l k hk => ?_) h.surfaceTokens
  · grind [h.finished]
  grind +splitImp +splitIndPred

omit [DecidableEq C] [DecidableEq I] in
theorem find_setStatus_self (hr : p.locks.find token = some record) (status : LockStatus) :
    (p.setStatus token status).locks.find token = some { record with status := status } := by
  rw [find_setStatus, hr, Option.map_some, if_pos rfl]

omit [DecidableEq C] [DecidableEq I] in
theorem find_setStatus_ite (p : SessionLockProtocol C I R S W) (token : LockToken) (status : LockStatus) (l : LockToken) :
    (p.setStatus token status).locks.find l
      = if l = token then (p.setStatus token status).locks.find token else p.locks.find l := by
  by_cases hl : l = token
  · rw [if_pos hl, hl]
  · rw [if_neg hl, find_setStatus]
    simp [hl]

theorem requestDestroy_sound (h : p.Sound) (token : LockToken) : (p.requestDestroy token).2.Sound := by
  rw [requestDestroy]
  cases hr : p.locks.find token with
  | none => exact h
  | some record =>
    rw [Option.map_some]
    cases hs : record.status with
    | locked => exact h
    | finished => exact h
    | pending =>
      split_ifs with hp
      · have hactive : p.activeLock = some token := by rw [activeLock_eq, hp]; rfl
        exact h.ended hactive hr rfl (p.find_setStatus_ite token .finished) (find_setStatus_self hr .finished) rfl
          (.inl rfl)
      · have hidle : p.activeLock ≠ some token := by
          intro hactive
          rw [activeLock_eq] at hactive
          obtain hpend | ⟨-, hctl⟩ := Option.or_eq_some_iff.mp hactive
          · exact hp hpend
          · grind [h.controlled]
        have hfind := p.find_setStatus token .finished
        simp only [setStatus] at hfind
        refine h.relock (fun l record' hr' => ?_) fun l record' hr' => ?_
        · rw [hfind, Option.map_eq_some_iff] at hr'
          obtain ⟨old, hold, rfl⟩ := hr'
          refine ⟨old, hold, fun hne => ?_, fun _ => ?_⟩
          · split_ifs at hne
            · exact absurd rfl hne
            · exact hne
          · split_ifs <;> rfl
        · refine ⟨_, by rw [hfind, hr']; rfl, fun hactive => ?_, fun o t _ s _ hkeep => ?_⟩
          · have hne : l ≠ token := fun heq => hidle (heq ▸ hactive)
            simp only [if_neg hne]
          · split_ifs <;> exact hkeep

theorem requestUnlock_sound (h : p.Sound) (token : LockToken) : (p.requestUnlock token).2.Sound := by
  rw [requestUnlock]
  split_ifs with hno
  · exact h
  · rw [not_or, not_not, not_not] at hno
    obtain ⟨record, hr, -⟩ := Option.map_eq_some_iff.mp hno.1
    have hactive : p.activeLock = some token := by rw [activeLock, phase_of_controller hno.2]
    exact h.ended hactive hr rfl (p.find_setStatus_ite token .finished) (find_setStatus_self hr .finished) rfl (.inl rfl)

theorem dropLockResource_sound (h : p.Sound) (token : LockToken) : (p.dropLockResource token).2.Sound := by
  rw [dropLockResource]
  cases hr : p.locks.find token with
  | none => exact h
  | some record =>
    simp only
    have hcleared : ∀ l, (p.locks.insert token { record with resource := none }).find l
        = if l = token then some { record with resource := none } else p.locks.find l := fun l => by rw [Map.find_insert]
    split_ifs with hpend hctl
    · have hactive : p.activeLock = some token := by rw [activeLock_eq, hpend.2]; rfl
      have hfind := ({ p with locks := p.locks.insert token { record with resource := none } } :
        SessionLockProtocol C I R S W).find_setStatus token .finished
      refine Sound.removeUnusedLock (h.ended hactive hr rfl (fun l => ?_)
        (?_ : _ = some { record with resource := none, status := .finished }) rfl (.inl rfl)) token
      · by_cases hl : l = token
        · rw [if_pos hl, hl]
        · refine (hfind l).trans ?_
          simp [hl]
      grind
    · grind [activeLock, phase_of_controller, Sound.removeUnusedLock, h.ended]
    · have hidle : p.activeLock ≠ some token := by
        intro hactive
        rw [activeLock_eq] at hactive
        obtain hp | ⟨-, hc⟩ := Option.or_eq_some_iff.mp hactive
        · grind [h.awaited]
        · grind [h.controlled]
      grind [Sound.removeUnusedLock, h.relock]

end Requests

section Outputs

omit [DecidableEq W]

theorem frameSubmitted_sound (h : p.Sound) (output : C) (timeline : Nat) : (p.frameSubmitted output timeline).Sound := by
  grind [frameSubmitted, h.rephase]

theorem frameCompleted_sound (h : p.Sound) (alive : R → Bool) (output : C) (timeline : Nat) :
    (p.frameCompleted alive output timeline).2.Sound := by
  grind [frameCompleted, h.confirm, h.rephase]

theorem outputAdded_sound (h : p.Sound) (output : C) : (p.outputAdded output).Sound := by
  grind [outputAdded, h.rephase]

theorem Sound.erased (h : p.Sound) (index : Map C LockSurfaceToken)
    (hfind : ∀ o t, index.find o = some t → p.activeOutputIndex.find o = some t) :
    ({ p with activeOutputIndex := index } : SessionLockProtocol C I R S W).Sound :=
  ⟨h.awaited, h.controlled, h.held, h.others, fun o t hot => h.shown o t (hfind o t hot), h.lockTokens, h.surfaceTokens⟩

theorem find_of_erase {K V : Type} [DecidableEq K] {m : Map K V} {k j : K} {v : V} (h : (m.erase k).find j = some v) :
    m.find j = some v := by
  grind [Map.find_erase]

variable {token : LockSurfaceToken}

section

variable (h : p.Sound)
include h

theorem Sound.forgetSurface (hnot : ∀ output, p.activeOutputIndex.find output ≠ some token) (lock : LockToken) (output : I) :
    (p.forgetSurface lock output token).Sound := by
  rw [SessionLockProtocol.forgetSurface]
  cases hr : p.locks.find lock with
  | none => exact h
  | some record => grind [h.relock, Map.find_insert, Map.find_erase]

theorem clearOutput_sound (output : C) : (p.clearOutput output).2.Sound := by
  rw [clearOutput]
  cases ht : p.activeOutputIndex.find output with
  | none => exact h
  | some token =>
    have herased := h.erased (p.activeOutputIndex.erase output) fun o t => find_of_erase
    grind [herased.forgetSurface, Map.find_erase, h.shown]

theorem outputRemoved_sound (alive : R → Bool) (output : C) : (p.outputRemoved alive output).2.Sound := by
  have hcleared := clearOutput_sound h output
  grind [outputRemoved, hcleared.confirm, hcleared.rephase]

/-- New configures change nothing the invariant reads. -/
theorem Sound.configures {record : LockSurfaceRecord C I S W}
    (hr : p.surfaces.find token = some record) (configures : ConfigureQueue) :
    ({ p with surfaces := p.surfaces.insert token { record with configures := configures } } :
      SessionLockProtocol C I R S W).Sound := by
  refine ⟨h.awaited, h.controlled, h.held, h.others, fun o t hot => ?_, h.lockTokens, fun t s hs => ?_⟩
  · obtain ⟨s, hs, ho, hmine, hlisted⟩ := h.shown o t hot
    by_cases ht : t = token
    · subst ht
      rw [hr, Option.some.injEq] at hs
      subst hs
      exact ⟨_, (Map.find_insert ..).trans (if_pos rfl), ho, hmine, hlisted⟩
    · exact ⟨s, (Map.find_insert ..).trans ((if_neg ht).trans hs), ho, hmine, hlisted⟩
  grind +splitImp +splitIndPred [Map.find_insert]

theorem Sound.takeSerial : p.takeSerial.2.Sound :=
  ⟨h.awaited, h.controlled, h.held, h.others, h.shown, h.lockTokens, h.surfaceTokens⟩

theorem configureSurface_sound (alive : S → Bool) (token : LockSurfaceToken) (size : Nat × Nat) :
    (p.configureSurface alive token size).2.Sound := by
  grind [configureSurface, h.takeSerial, h.takeSerial.configures]

theorem ackConfigure_sound (alive : S → Bool) (token : LockSurfaceToken) (serial : Nat) :
    (p.ackConfigure alive token serial).2.Sound := by
  rw [ackConfigure]
  grind [h.configures, configureSurface_sound]

theorem configureOutput_sound (output : C) (size : Nat × Nat) : (p.configureOutput output size).Sound := by
  grind [configureOutput, h.takeSerial.erased, find_of_erase, h.takeSerial.configures]

end

end Outputs

section Surfaces

omit [DecidableEq W] in
theorem registerLock_sound (h : p.Sound) (resource : R) (outputs : List C) :
    (({ p with nextLock := p.nextLock + 1 }).registerLock p.nextLock resource outputs).2.Sound := by
  have hnew : ∀ l record, p.locks.find l = some record → l ≠ p.nextLock := fun l record hr =>
    Nat.ne_of_lt (h.lockTokens l record hr)
  have hfind : ∀ (entry : LockRecord I R) l, (p.locks.insert p.nextLock entry).find l
      = if l = p.nextLock then some entry else p.locks.find l := fun entry l => by rw [Map.find_insert]
  have hself : ∀ entry : LockRecord I R, (p.locks.insert p.nextLock entry).find p.nextLock = some entry :=
    fun entry => (hfind entry _).trans (if_pos rfl)
  have htokens : ∀ (entry : LockRecord I R) l record, (p.locks.insert p.nextLock entry).find l = some record →
      l < p.nextLock + 1 := by
    intro entry l record hr
    rw [hfind] at hr
    split_ifs at hr with hl
    · exact hl ▸ Nat.lt_succ_self _
    · exact Nat.lt_succ_of_lt (h.lockTokens l record hr)
  -- from Unlocked nothing is shown and every lock has ended
  have hquiet : p.phase = .unlocked → (∀ o t, p.activeOutputIndex.find o ≠ some t)
      ∧ ∀ l record, p.locks.find l = some record → record.status = .finished := by
    intro hphase
    refine ⟨fun o t hot => ?_, fun l record hr => ?_⟩
    · grind [h.shown, activeLock]
    · by_contra hs
      obtain hactive | hlocked := h.others l record hr hs
      · rw [activeLock, hphase] at hactive
        cases hactive
      · rw [hphase] at hlocked
        cases hlocked
  have hbegin : ∀ (phase : SessionPhase C) (status : LockStatus), p.phase = .unlocked →
      ({ p with phase := phase } : SessionLockProtocol C I R S W).activeLock = some p.nextLock →
      (∀ l, ({ p with phase := phase } : SessionLockProtocol C I R S W).pendingLock = some l →
        l = p.nextLock ∧ status = .pending) →
      (∀ l, ({ p with phase := phase } : SessionLockProtocol C I R S W).controller = some l →
        l = p.nextLock ∧ status = .locked) →
      ({ p with
        phase := phase
        nextLock := p.nextLock + 1
        locks := p.locks.insert p.nextLock ⟨some resource, status, Map.empty⟩ } : SessionLockProtocol C I R S W).Sound := by
    intro phase status hphase hactive hpend hctl
    obtain ⟨hindex, hended⟩ := hquiet hphase
    refine ⟨fun l hl => ?_, fun l hl => ?_, fun l record hl hr => ?_, fun l record hr hs => ?_,
      fun o t hot => absurd hot (hindex o t), htokens _, h.surfaceTokens⟩
    · obtain ⟨rfl, hs⟩ := hpend l hl
      exact ⟨_, hself _, hs⟩
    · obtain ⟨rfl, hs⟩ := hctl l hl
      exact ⟨_, hself _, hs⟩
    · change ({ p with phase := phase } : SessionLockProtocol C I R S W).activeLock = some l at hl
      grind
    · rw [hfind] at hr
      split_ifs at hr with hl
      · subst hl
        exact .inl hactive
      · exact absurd (hended l record hr) hs
  rw [registerLock]
  split
  · rename_i hphase
    split_ifs
    · exact hbegin _ .locked hphase rfl (fun l hl => by cases hl) fun l hl => ⟨(Option.some.inj hl).symm, rfl⟩
    · exact hbegin _ .pending hphase rfl (fun l hl => ⟨(Option.some.inj hl).symm, rfl⟩) fun l hl => by cases hl
  · refine ⟨fun l hl => ?_, fun l hl => ?_, fun l record hl hr => ?_, fun l record hr hs => ?_, fun o t hot => ?_,
      htokens _, h.surfaceTokens⟩
    · obtain ⟨record, hr, hs⟩ := h.awaited l hl
      grind
    · obtain ⟨record, hr, hs⟩ := h.controlled l hl
      grind
    · rw [hfind] at hr
      split_ifs at hr with hl'
      · cases hr
        rfl
      · exact h.held l record hl hr
    · rw [hfind] at hr
      split_ifs at hr with hl
      · cases hr
        exact absurd rfl hs
      · exact h.others l record hr hs
    · obtain ⟨record, hr, ho, hmine, listing, hlisting, hinst⟩ := h.shown o t hot
      exact ⟨record, hr, ho, hmine, listing, (hfind _ _).trans ((if_neg (hnew _ listing hlisting)).trans hlisting), hinst⟩

omit [DecidableEq W] in
theorem Sound.listSurface (h : p.Sound) {lock : LockToken} {listing : LockRecord I R}
    (hlock : p.locks.find lock = some listing) {output : I} (hfree : listing.surfaces.find output = none)
    (token : LockSurfaceToken) :
    ({ p with locks := p.locks.insert lock { listing with surfaces := listing.surfaces.insert output token } } :
      SessionLockProtocol C I R S W).Sound := by
  grind [h.relock, Map.find_insert]

omit [DecidableEq W] in
/-- A surface under a fresh token; the index may show it once its lock lists it and is active. -/
theorem Sound.placeSurface (h : p.Sound) (record : LockSurfaceRecord C I S W) (surfaceIndex : Map W LockSurfaceToken)
    {index : Map C LockSurfaceToken}
    (hindex : ∀ o t, index.find o = some t → p.activeOutputIndex.find o = some t
      ∨ t = p.nextSurface ∧ record.output = o ∧ p.activeLock = some record.lock ∧ p.Listed t record) :
    ({ p with
      surfaces := p.surfaces.insert p.nextSurface record
      surfaceIndex := surfaceIndex
      activeOutputIndex := index
      nextSurface := p.nextSurface + 1 } : SessionLockProtocol C I R S W).Sound := by
  have hold : ∀ t s, p.surfaces.find t = some s → t ≠ p.nextSurface := fun t s hs =>
    Nat.ne_of_lt (h.surfaceTokens t s hs)
  refine ⟨h.awaited, h.controlled, h.held, h.others, fun o t hot => ?_, h.lockTokens, fun t s hs => ?_⟩
  · obtain hot | ⟨rfl, hrest⟩ := hindex o t hot
    · obtain ⟨s, hs, ho, hmine, hlisted⟩ := h.shown o t hot
      exact ⟨s, (Map.find_insert ..).trans ((if_neg (hold t s hs)).trans hs), ho, hmine, hlisted⟩
    · exact ⟨record, (Map.find_insert ..).trans (if_pos rfl), hrest⟩
  grind +splitImp +splitIndPred [Map.find_insert]

theorem insertSurface_sound (h : p.Sound) {registration : LockSurfaceRegistration C I S W}
    (htoken : registration.token = p.nextSurface) (hadd : p.canAddSurface registration.lock registration.outputInstance) :
    (({ p with nextSurface := p.nextSurface + 1 }).insertSurface registration).2.Sound := by
  obtain ⟨token, lock, outputInstance, output, outputIsLive, resource, surface⟩ := registration
  subst htoken
  rw [canAddSurface] at hadd
  rw [insertSurface]
  cases hlock : p.locks.find lock with
  | none =>
    rw [hlock] at hadd
    cases hadd
  | some listing =>
    simp only [hlock] at hadd ⊢
    refine (h.listSurface hlock (Option.isNone_iff_eq_none.mp hadd) p.nextSurface).placeSurface
      ⟨lock, outputInstance, output, resource, surface, ConfigureQueue.new⟩ _ fun o t hot => ?_
    split_ifs at hot with hactive
    · rw [Map.find_insert] at hot
      split_ifs at hot with ho
      · cases hot
        rw [Bool.and_eq_true, beq_iff_eq] at hactive
        exact .inr ⟨rfl, ho.symm, hactive.2, _, (Map.find_insert ..).trans (if_pos rfl),
          (Map.find_insert ..).trans (if_pos rfl)⟩
      · exact .inl hot
    · exact .inl hot

theorem removeSurfaceToken_sound (h : p.Sound) (token : LockSurfaceToken) : (p.removeSurfaceToken token).2.Sound := by
  rw [removeSurfaceToken]
  cases hr : p.surfaces.find token with
  | none => exact h
  | some record =>
    have hkept : ∀ o t, (eraseWhen p.activeOutputIndex record.output token).find o = some t →
        p.activeOutputIndex.find o = some t ∧ t ≠ token := by
      intro o t hot
      rw [find_eraseWhen] at hot
      split_ifs at hot with hcond
      refine ⟨hot, fun ht => hcond ?_⟩
      subst ht
      -- a token is shown on the output of its record only
      obtain ⟨record', hr', ho', -⟩ := h.shown o t hot
      rw [hr, Option.some.injEq] at hr'
      rw [hr', ho']
      exact ⟨rfl, hot⟩
    have herased : ({ p with
        surfaces := p.surfaces.erase token
        surfaceIndex := eraseWhen p.surfaceIndex record.surface token
        activeOutputIndex := eraseWhen p.activeOutputIndex record.output token } :
        SessionLockProtocol C I R S W).Sound := by
      refine ⟨h.awaited, h.controlled, h.held, h.others, fun o t hot => ?_, h.lockTokens,
        fun t s hs => h.surfaceTokens t s (find_of_erase hs)⟩
      obtain ⟨hold, hne⟩ := hkept o t hot
      obtain ⟨s, hs, ho, hmine, hlisted⟩ := h.shown o t hold
      exact ⟨s, (Map.find_erase ..).trans ((if_neg hne).trans hs), ho, hmine, hlisted⟩
    exact (herased.forgetSurface (fun o hot => (hkept o token hot).2 rfl) record.lock
      record.outputInstance).removeUnusedLock record.lock

theorem removeWlSurface_sound (h : p.Sound) (surface : W) : (p.removeWlSurface surface).2.Sound := by
  grind [removeWlSurface, removeSurfaceToken_sound]

end Surfaces

end TensorDE.Wm.SessionLock.SessionLockProtocol
