import TensorDE.Lib.Trace
import TensorDE.Protocol.Toplevel

set_option linter.dupNamespace false

namespace TensorDE.Protocol.XdgShell

open TensorDE.Trace List

namespace ConfigureQueue

variable {T : Type} {q q' : ConfigureQueue T} {serial : Nat} {value : T}

theorem push_entries (q : ConfigureQueue T) (serial : Nat) (value : T) :
    ∃ kept, kept.Sublist q.entries ∧ (q.push serial value).entries = kept ++ [(serial, value)] := by
  rw [push]
  split_ifs
  · exact ⟨_, tail_sublist _, rfl⟩
  · exact ⟨_, List.Sublist.refl _, rfl⟩

theorem ack_entries (h : q.ack serial = some (value, q')) :
    ∃ before, q.entries = before ++ (serial, value) :: q'.entries := by
  rw [ack] at h
  split at h
  · cases h
  · obtain ⟨before, hbefore⟩ := dropWhile_suffix (l := q.entries) fun entry => decide (entry.1 ≠ serial)
    grind [head?_dropWhile_not]

end ConfigureQueue

theorem pendingHasBuffer_again (pending : Option BufferAssignment) (mapped : Bool) :
    pendingHasBuffer pending (pendingHasBuffer pending mapped) = pendingHasBuffer pending mapped := by
  cases pending with
  | none => rfl
  | some assignment => cases assignment <;> rfl

namespace ToplevelState

variable {role role' : ToplevelState} {pending : Option BufferAssignment} {hooks : Nat}

def HasAcked (role : ToplevelState) : Prop :=
  ∃ configure, role.lastAcked = some configure ∧ configure.generation = role.generation

def Unmaps (role : ToplevelState) (pending : Option BufferAssignment) : Prop :=
  role.mapped = true ∧ pendingHasBuffer pending role.mapped = false

def afterUnmap (role : ToplevelState) : ToplevelState :=
  { ToplevelState.default with
    configures := role.configures
    generation := (role.generation + 1) % 2 ^ 64 }

def afterApply (role : ToplevelState) (hasBuffer : Bool) : ToplevelState :=
  { role with
    currentClient := role.pendingClient
    mapped := hasBuffer
    configureReady := role.configureReady || !hasBuffer }

theorem all_lastAcked_iff :
    (role.lastAcked.all fun configure => configure.generation ≠ role.generation) = true ↔ ¬ role.HasAcked := by
  rw [HasAcked]
  cases role.lastAcked <;> simp

theorem preCommit_rejected (hbuffer : pendingHasBuffer pending role.mapped = true) (hacked : ¬ role.HasAcked) :
    role.preCommit pending = (.rejected, role) := by
  grind [preCommit, commit, all_lastAcked_iff]

theorem preCommit_unmaps (h : role.Unmaps pending) : role.preCommit pending = (.unmapped, role.afterUnmap) := by
  rw [preCommit, commit, h.2, if_neg (by simp), if_pos ⟨h.1, rfl⟩]
  rfl

theorem preCommit_applied (hacked : pendingHasBuffer pending role.mapped = true → role.HasAcked)
    (h : ¬ role.Unmaps pending) :
    role.preCommit pending = (.applied, role.afterApply (pendingHasBuffer pending role.mapped)) := by
  rw [preCommit, commit, if_neg, if_neg]
  · rfl
  · rintro ⟨hmapped, hbuffer⟩
    exact h ⟨hmapped, by simpa using hbuffer⟩
  grind -linarith [all_lastAcked_iff]

theorem preCommit_cases (role : ToplevelState) (pending : Option BufferAssignment) :
    (pendingHasBuffer pending role.mapped = true ∧ ¬ role.HasAcked ∧ role.preCommit pending = (.rejected, role))
    ∨ (role.Unmaps pending ∧ role.preCommit pending = (.unmapped, role.afterUnmap))
    ∨ ((pendingHasBuffer pending role.mapped = true → role.HasAcked) ∧ ¬ role.Unmaps pending
        ∧ role.preCommit pending = (.applied, role.afterApply (pendingHasBuffer pending role.mapped))) := by
  grind -linarith [preCommit_unmaps, preCommit_applied, preCommit_rejected]

/-- A second hook finds nothing left to do, unless the first one has unmapped the role. -/
theorem preCommit_again (h : ¬ role.Unmaps pending) :
    (role.preCommit pending).2.preCommit pending = role.preCommit pending
      ∧ ¬ (role.preCommit pending).2.Unmaps pending := by
  obtain ⟨-, -, heq⟩ | ⟨hunmaps, -⟩ | ⟨hacked, -, heq⟩ := role.preCommit_cases pending
  · rw [heq]
    exact ⟨heq, h⟩
  · exact absurd hunmaps h
  grind -linarith [pendingHasBuffer_again, afterApply, preCommit_applied, Unmaps, HasAcked]

theorem invokePreCommitHooks_once (h : role.Unmaps pending → hooks = 0) :
    (invokePreCommitHooks pending (hooks + 1) role).2 = (role.preCommit pending).2
      ∧ (.rejected ∈ (invokePreCommitHooks pending (hooks + 1) role).1 ↔ (role.preCommit pending).1 = .rejected) := by
  induction hooks generalizing role with
  | zero => grind [invokePreCommitHooks]
  | succ hooks ih => grind [preCommit_again, invokePreCommitHooks]

theorem eq_removed_of_unmaps (h : role.Unmaps pending) : pending = some .removed := by
  obtain ⟨hmapped, hbuffer⟩ := h
  rw [hmapped] at hbuffer
  cases pending with
  | none => cases hbuffer
  | some assignment =>
    cases assignment with
    | newBuffer => cases hbuffer
    | removed => rfl

theorem invokePreCommitHooks_ready (h : role.Unmaps pending) (hooks : Nat) :
    (invokePreCommitHooks pending (hooks + 2) role).2.configureReady = true := by
  obtain rfl := eq_removed_of_unmaps h
  have hnot : ¬ role.afterUnmap.Unmaps (some .removed) := fun hunmaps => nomatch hunmaps.1
  have hsecond : role.afterUnmap.preCommit (some .removed) = (.applied, role.afterUnmap.afterApply false) :=
    preCommit_applied nofun hnot
  rw [invokePreCommitHooks, preCommit_unmaps h, (invokePreCommitHooks_once fun hunmaps => absurd hunmaps hnot).1,
    hsecond]
  rfl

end ToplevelState

/-- What a mapping of the role is to the client and the compositor. -/
structure Mapping where
  mapped : Bool
  /-- A commit without a buffer has been made. -/
  initialCommit : Bool
  /-- The configures that have been sent, under their serials. -/
  sent : List (Nat × ToplevelServerState)
  /-- One of them has been acknowledged. -/
  acked : Bool
  /-- The size, bounds and activation that the compositor has asked for last. -/
  requested : ToplevelServerState

namespace Mapping

def fresh : Mapping := ⟨false, false, [], false, ToplevelServerState.default⟩

variable (m : Mapping)

def commit (pending : Option BufferAssignment) : Mapping :=
  if pendingHasBuffer pending m.mapped then { m with mapped := true }
  else if m.mapped then fresh
  else { m with initialCommit := true }

def next (reply : Reply) : Request → Mapping
  | .getToplevel | .destroyToplevel => fresh
  | .commit pending => m.commit pending
  | .ackConfigure serial => { m with acked := m.acked || m.sent.any fun sent => sent.1 = serial }
  | .setActivated activated => { m with requested := { m.requested with activated := activated } }
  | .setLayout size bounds => { m with requested := { m.requested with size := some size, bounds := some bounds } }
  | .sendConfigure _ => { m with sent := m.sent ++ (reply.configure.map fun sent => (sent.serial, sent.state)).toList }
  | _ => m

end Mapping

structure RoleKept (role : ToplevelState) (m : Mapping) : Prop where
  mapped : role.mapped = m.mapped
  mappedAcked : role.mapped = true → role.HasAcked
  current : ∀ configure, role.lastAcked = some configure → configure.generation = role.generation
  acked : role.HasAcked ↔ m.acked = true
  ready : role.configureReady = true → m.initialCommit = true
  requested : role.pendingServer = some m.requested ∨ role.pendingServer = none ∧ role.lastSent = some m.requested
  lastSent : role.lastSent = m.sent.getLast?.map Prod.snd
  bound : role.generation < 2 ^ 64
  entries : ∀ entry ∈ role.configures.entries,
    (entry.2.generation = role.generation ∧ entry.1 ∈ m.sent.map Prod.fst)
      ∨ ((entry.2.generation + 1) % 2 ^ 64 = role.generation ∧ entry.1 ∉ m.sent.map Prod.fst)
  ordered : role.configures.entries.Pairwise fun a b =>
    a.2.generation = role.generation → b.2.generation = role.generation
  cleared : role.HasAcked → ∀ entry ∈ role.configures.entries, entry.2.generation = role.generation

namespace RoleKept

variable {role : ToplevelState} {m : Mapping} {pending : Option BufferAssignment}

theorem fresh : RoleKept ToplevelState.default Mapping.fresh where
  mapped := rfl
  mappedAcked := nofun
  current := nofun
  acked := ⟨nofun, nofun⟩
  ready := nofun
  requested := .inl rfl
  lastSent := rfl
  bound := by decide
  entries := nofun
  ordered := List.Pairwise.nil
  cleared := nofun

section

variable (h : RoleKept role m)
include h

theorem server : role.server = m.requested := by
  grind [ToplevelState.server, h.requested]

theorem client (pendingClient : ClientSurfaceState) (parent : Option ToplevelId) (title appId : Option String) :
    RoleKept { role with pendingClient := pendingClient, parent := parent, title := title, appId := appId } m :=
  ⟨h.mapped, h.mappedAcked, h.current, h.acked, h.ready, h.requested, h.lastSent, h.bound, h.entries, h.ordered,
    h.cleared⟩

theorem request (requested : ToplevelServerState) :
    RoleKept { role with pendingServer := some requested } { m with requested := requested } :=
  ⟨h.mapped, h.mappedAcked, h.current, h.acked, h.ready, .inl rfl, h.lastSent, h.bound, h.entries, h.ordered,
    h.cleared⟩

theorem setLayout (size bounds : Size) : RoleKept (role.setLayout size bounds) { m with requested :=
      { m.requested with size := some size, bounds := some bounds } } := by
  rw [ToplevelState.setLayout, h.server]
  exact h.request _

theorem setActivated (activated : Bool) :
    RoleKept (role.setActivated activated).2 { m with requested := { m.requested with activated := activated } } := by
  rw [ToplevelState.setActivated, h.server]
  split_ifs with hsame
  · subst hsame
    exact h
  · exact h.request _

/-- One hook takes the role through the commit as the client means it. -/
theorem preCommit (hok : (role.preCommit pending).1 ≠ .rejected) :
    RoleKept (role.preCommit pending).2 (m.commit pending) := by
  rw [Mapping.commit, ← h.mapped]
  obtain ⟨-, -, heq⟩ | ⟨hunmaps, heq⟩ | ⟨hacked, hunmaps, heq⟩ := role.preCommit_cases pending
  · rw [heq] at hok
    exact absurd rfl hok
  · rw [heq, hunmaps.2, hunmaps.1, if_neg Bool.false_ne_true, if_pos rfl]
    refine ⟨rfl, nofun, nofun, ⟨nofun, nofun⟩, nofun, .inl rfl, rfl, Nat.mod_lt _ (by decide),
      fun entry hentry => .inr ⟨?_, nofun⟩, ?_, nofun⟩
    -- a mapped role has acknowledged, so what is still queued is of the mapping that ends
    · rw [h.cleared (h.mappedAcked hunmaps.1) entry hentry]
      rfl
    · refine h.ordered.imp_of_mem fun {a b} ha hb _ hnew => ?_
      have hold := h.cleared (h.mappedAcked hunmaps.1) a ha
      grind
  · rw [heq]
    cases hbuffer : pendingHasBuffer pending role.mapped with
    | true =>
      exact ⟨rfl, fun _ => hacked hbuffer, h.current, h.acked,
        fun hready => h.ready (by simpa [ToplevelState.afterApply] using hready), h.requested, h.lastSent, h.bound,
        h.entries, h.ordered, h.cleared⟩
    | false =>
      have hmapped : role.mapped = false := by
        by_contra hmapped
        exact hunmaps ⟨Bool.not_eq_false _ ▸ hmapped, hbuffer⟩
      rw [hmapped, if_neg Bool.false_ne_true, if_neg Bool.false_ne_true]
      exact ⟨rfl, nofun, h.current, h.acked, fun _ => rfl, h.requested, h.lastSent, h.bound, h.entries,
        h.ordered, h.cleared⟩

end

variable {serial : Nat}

theorem prepareConfigure (h : RoleKept role m) (force : Bool)
    (hserial : ∀ entry ∈ role.configures.entries, entry.1 = serial → entry.2.generation = role.generation) :
    RoleKept (role.prepareConfigure force serial).2 { m with
        sent := m.sent ++ ((role.prepareConfigure force serial).1.map fun sent => (sent.serial, sent.state)).toList }
      ∧ ((role.prepareConfigure force serial).1.isSome → m.initialCommit = true) := by
  rw [ToplevelState.prepareConfigure]
  split_ifs with hready hsame
  · -- what is pending has been sent already
    refine ⟨⟨h.mapped, h.mappedAcked, h.current, h.acked, h.ready, .inr ⟨rfl, ?_⟩, ?_, h.bound, ?_, h.ordered, h.cleared⟩,
      nofun⟩
    · rw [← h.server]
      exact hsame.2.2
    · simpa using h.lastSent
    · simpa using h.entries
  · obtain ⟨kept, hkept, hentries⟩ := role.configures.push_entries serial ⟨role.generation⟩
    have hmem : ∀ entry ∈ (role.configures.push serial ⟨role.generation⟩).entries,
        entry ∈ role.configures.entries ∨ entry = (serial, ⟨role.generation⟩) := by
      intro entry hentry
      rw [hentries] at hentry
      obtain hold | hnew := mem_append.mp hentry
      · exact .inl (hkept.subset hold)
      · exact .inr (mem_singleton.mp hnew)
    refine ⟨⟨h.mapped, h.mappedAcked, h.current, h.acked, h.ready, .inr ⟨rfl, congrArg some h.server⟩, ?_, h.bound,
      fun entry hentry => ?_, ?_, fun hacked entry hentry => ?_⟩, fun _ => h.ready hready⟩
    · simp
    · obtain hold | rfl := hmem entry hentry
      · obtain ⟨hgeneration, hsent⟩ | ⟨hgeneration, hsent⟩ := h.entries entry hold
        · exact .inl ⟨hgeneration, by simp [mem_map.mp hsent]⟩
        · refine .inr ⟨hgeneration, ?_⟩
          -- the serial is not one that an older mapping still waits for
          have hne : entry.1 ≠ serial := by
            intro heq
            have hsame := hserial entry hold heq
            omega
          simpa [hne] using hsent
      · exact .inl ⟨rfl, by simp⟩
    · simp only [hentries]
      rw [pairwise_append]
      refine ⟨h.ordered.sublist hkept, pairwise_singleton _ _, fun a _ b hb _ => ?_⟩
      rw [mem_singleton.mp hb]
    · obtain hold | rfl := hmem entry hentry
      · exact h.cleared hacked entry hold
      · rfl
  · exact ⟨by simpa using h, nofun⟩

theorem ackConfigure (h : RoleKept role m) {role' : ToplevelState} (hack : role.ackConfigure serial = some role') :
    RoleKept role' { m with acked := m.acked || m.sent.any fun sent => sent.1 = serial } := by
  rw [ToplevelState.ackConfigure, Option.map_eq_some_iff] at hack
  obtain ⟨⟨configure, rest⟩, hqueue, rfl⟩ := hack
  obtain ⟨before, hentries⟩ := ConfigureQueue.ack_entries hqueue
  have hmem : (serial, configure) ∈ role.configures.entries := by simp [hentries]
  have hrest : ∀ entry ∈ rest.entries, entry ∈ role.configures.entries := by
    intro entry hentry
    simp [hentries, hentry]
  have hordered := h.ordered
  rw [hentries, pairwise_append, pairwise_cons] at hordered
  obtain ⟨-, ⟨hafter, hpairwise⟩, -⟩ := hordered
  obtain ⟨hgeneration, hsent⟩ | ⟨hgeneration, hsent⟩ := h.entries _ hmem
  · have hany : (m.sent.any fun sent => sent.1 = serial) = true := by
      obtain ⟨sent, hsent, heq⟩ := mem_map.mp hsent
      exact any_eq_true.mpr ⟨sent, hsent, by simpa using heq⟩
    simp only [hany, Bool.or_true, if_pos hgeneration]
    have hacked : ∀ entry ∈ rest.entries, entry.2.generation = role.generation := fun entry hentry =>
      hafter entry hentry hgeneration
    refine ⟨h.mapped, fun _ => ⟨configure, rfl, hgeneration⟩, fun c hc => ?_,
      ⟨fun _ => rfl, fun _ => ⟨configure, rfl, hgeneration⟩⟩, h.ready, h.requested, h.lastSent, h.bound,
      fun entry hentry => h.entries entry (hrest entry hentry), hpairwise, fun _ => hacked⟩
    cases hc
    exact hgeneration
  · have hany : (m.sent.any fun sent => sent.1 = serial) = false := by
      rw [any_eq_false]
      intro sent hmem heq
      exact hsent (mem_map.mpr ⟨sent, hmem, by simpa using heq⟩)
    have hstale : configure.generation ≠ role.generation := by
      simp only at hgeneration
      omega
    simp only [hany, Bool.or_false, if_neg hstale]
    exact ⟨h.mapped, h.mappedAcked, h.current, h.acked, h.ready, h.requested, h.lastSent, h.bound,
      fun entry hentry => h.entries entry (hrest entry hentry), hpairwise,
      fun hacked entry hentry => h.cleared hacked entry (hrest entry hentry)⟩

end RoleKept

structure Session where
  surface : RoleSurface
  mapping : Mapping

namespace Session

def start : Session := ⟨RoleSurface.start, Mapping.fresh⟩

variable (q : Session)

def step (e : Request) : Option Session :=
  (q.surface.handle e).2.map fun surface => ⟨surface, q.mapping.next (q.surface.handle e).1 e⟩

def Step (e : Request) (q' : Session) : Prop := q.step e = some q'

/-- An unmapping commit finds one hook only, and a configure takes no serial under which one of an
earlier mapping is still queued. -/
structure Sparing (q : Session) (e : Request) : Prop where
  hook : ∀ role pending, q.surface.toplevel = some role → e = .commit pending → role.Unmaps pending →
    q.surface.hooks ≤ 1
  serial : ∀ role force, q.surface.toplevel = some role → e = .sendConfigure force →
    ∀ entry ∈ role.configures.entries, entry.1 = q.surface.serial → entry.2.generation = role.generation

def SparingStep (e : Request) (q' : Session) : Prop := q.Sparing e ∧ q.Step e q'

/-- What the compositor has asked for last is pending, or it is what the last configure of this
mapping says. -/
def Settled (role : ToplevelState) : Prop :=
  role.pendingServer = some q.mapping.requested
    ∨ role.pendingServer = none ∧ q.mapping.sent.getLast?.map Prod.snd = some q.mapping.requested

structure Promised (q : Session) (role : ToplevelState) (e : Request) : Prop where
  accepted : e = .commit (some .newBuffer) →
    (.rejected ∉ (q.surface.handle e).1.commits ↔ q.mapping.acked = true)
  once : ∀ pending surface, e = .commit pending → (q.surface.handle e).2 = some surface →
    surface.toplevel = some (role.preCommit pending).2
  fresh : ∀ pending, e = .commit pending → role.Unmaps pending → ∃ surface role',
    (q.surface.handle e).2 = some surface ∧ surface.toplevel = some role' ∧ role'.mapped = false
      ∧ role'.configureReady = false ∧ role'.initialConfigureSent = false ∧ role'.lastAcked = none
  afterInitial : (q.surface.handle e).1.configure.isSome → q.mapping.initialCommit = true

structure Kept (q : Session) (role : ToplevelState) : Prop where
  role : RoleKept role q.mapping
  hooked : q.surface.hooks ≠ 0

variable {q q' : Session} {role role' : ToplevelState} {e : Request} {pending : Option BufferAssignment}

theorem handle_commit (hrole : q.surface.toplevel = some role) (pending : Option BufferAssignment) :
    q.surface.handle (.commit pending) = (⟨(invokePreCommitHooks pending q.surface.hooks role).1, none⟩,
      if .rejected ∈ (invokePreCommitHooks pending q.surface.hooks role).1 then none
      else some { q.surface with toplevel := some (invokePreCommitHooks pending q.surface.hooks role).2 }) := by
  rw [RoleSurface.handle, hrole]

theorem handle_sendConfigure (hrole : q.surface.toplevel = some role) (force : Bool) :
    (q.surface.handle (.sendConfigure force)).1 = ⟨[], (role.prepareConfigure force q.surface.serial).1⟩ := by
  rw [RoleSurface.handle, hrole]

theorem hooks_once (hq : q.Kept role) (h : role.Unmaps pending → q.surface.hooks ≤ 1) :
    (invokePreCommitHooks pending q.surface.hooks role).2 = (role.preCommit pending).2
      ∧ (.rejected ∈ (invokePreCommitHooks pending q.surface.hooks role).1
          ↔ (role.preCommit pending).1 = .rejected) := by
  obtain ⟨hooks, hhooks⟩ := Nat.exists_eq_succ_of_ne_zero hq.hooked
  grind [ToplevelState.invokePreCommitHooks_once]

theorem withRole_kept (hq : ∀ role, q.surface.toplevel = some role → q.Kept role) {f : ToplevelState → ToplevelState}
    {m : Mapping} (hkept : ∀ role, RoleKept role q.mapping → RoleKept (f role) m) {surface : RoleSurface}
    (h : (q.surface.withRole f).2 = some surface) (hrole' : surface.toplevel = some role') :
    (⟨surface, m⟩ : Session).Kept role' := by
  cases h
  obtain ⟨role, hrole, rfl⟩ := Option.map_eq_some_iff.mp hrole'
  exact ⟨hkept role (hq role hrole).role, (hq role hrole).hooked⟩

theorem step_kept (hq : ∀ role, q.surface.toplevel = some role → q.Kept role) (hstep : q.SparingStep e q')
    (hrole' : q'.surface.toplevel = some role') : q'.Kept role' := by
  obtain ⟨hsparing, hstep⟩ := hstep
  obtain ⟨surface, hhandle, rfl⟩ := Option.map_eq_some_iff.mp hstep
  cases e with
  | getToplevel =>
    rw [RoleSurface.handle] at hhandle
    split at hhandle
    · cases hhandle
    · cases hhandle
      cases hrole'
      exact ⟨RoleKept.fresh, Nat.succ_ne_zero _⟩
  | destroyToplevel =>
    cases hhandle
    cases hrole'
  | setWindowGeometry geometry =>
    rw [RoleSurface.handle] at hhandle
    split_ifs at hhandle
    exact withRole_kept hq (fun role h => h.client _ role.parent role.title role.appId) hhandle hrole'
  | setMinSize size =>
    exact withRole_kept hq (fun role h => h.client _ role.parent role.title role.appId) hhandle hrole'
  | setMaxSize size =>
    exact withRole_kept hq (fun role h => h.client _ role.parent role.title role.appId) hhandle hrole'
  | setTitle title =>
    exact withRole_kept hq (fun role h => h.client role.pendingClient role.parent _ role.appId) hhandle hrole'
  | setAppId appId =>
    exact withRole_kept hq (fun role h => h.client role.pendingClient role.parent role.title _) hhandle hrole'
  | setParent parent =>
    exact withRole_kept hq (fun role h => h.client role.pendingClient _ role.title role.appId) hhandle hrole'
  | setActivated activated => exact withRole_kept hq (fun role h => h.setActivated activated) hhandle hrole'
  | setLayout size bounds => exact withRole_kept hq (fun role h => h.setLayout size bounds) hhandle hrole'
  | otherConfigure =>
    cases hhandle
    exact ⟨(hq role' hrole').role, (hq role' hrole').hooked⟩
  | commit pending =>
    cases hrole : q.surface.toplevel with
    | none => grind [RoleSurface.handle]
    | some role =>
      have hkept := hq role hrole
      have honce : role.Unmaps pending → q.surface.hooks ≤ 1 := hsparing.hook role pending hrole rfl
      obtain ⟨hstate, hrejected⟩ := hooks_once hkept honce
      rw [handle_commit hrole] at hhandle
      split_ifs at hhandle with hreject
      cases hhandle
      simp only [Option.some.injEq] at hrole'
      rw [← hrole', hstate]
      exact ⟨hkept.role.preCommit fun hno => hreject (hrejected.mpr hno), hkept.hooked⟩
  | ackConfigure serial =>
    rw [RoleSurface.handle] at hhandle
    split at hhandle
    · cases hhandle
    · rename_i role hack
      cases hhandle
      cases hrole'
      obtain ⟨old, hold, hack⟩ := Option.bind_eq_some_iff.mp hack
      exact ⟨(hq old hold).role.ackConfigure hack, (hq old hold).hooked⟩
  | sendConfigure force =>
    cases hrole : q.surface.toplevel with
    | none => grind [RoleSurface.handle]
    | some role =>
      have hkept := (hq role hrole).role.prepareConfigure force (hsparing.serial role force hrole rfl)
      rw [handle_sendConfigure hrole]
      rw [RoleSurface.handle, hrole] at hhandle
      cases hhandle
      cases hrole'
      exact ⟨hkept.1, (hq role hrole).hooked⟩

theorem run_kept {es : List Request} (run : Run SparingStep start es q) :
    ∀ role, q.surface.toplevel = some role → q.Kept role :=
  run.invariant (P := fun q => ∀ role, q.surface.toplevel = some role → q.Kept role) (Q := fun _ => True)
    (fun _ _ _ hq _ hstep _ hrole => step_kept hq hstep hrole) (fun _ hrole => by cases hrole) fun _ _ => trivial

theorem handle_configure {s : RoleSurface} (h : (s.handle e).1.configure.isSome) : ∃ force, e = .sendConfigure force := by
  cases e with
  | sendConfigure force => exact ⟨force, rfl⟩
  | getToplevel | commit | ackConfigure => grind [RoleSurface.handle]
  | setWindowGeometry =>
    rw [RoleSurface.handle] at h
    split_ifs at h <;> cases h
  | destroyToplevel | setMinSize | setMaxSize | setTitle | setAppId | setParent | setActivated | setLayout
  | otherConfigure => cases h

theorem promised (hq : q.Kept role) (hrole : q.surface.toplevel = some role) (hsparing : q.Sparing e) :
    q.Promised role e := by
  have honce : ∀ pending, e = .commit pending → role.Unmaps pending → q.surface.hooks ≤ 1 :=
    fun pending he hunmaps => hsparing.hook role pending hrole he hunmaps
  refine ⟨fun he => ?_, fun pending surface he hsurface => ?_, fun pending he hunmaps => ?_, fun hsome => ?_⟩
  · obtain ⟨-, hrejected⟩ := hooks_once hq (honce _ he)
    rw [he, handle_commit hrole, hrejected, ← hq.role.acked]
    obtain ⟨-, hno, heq⟩ | ⟨hunmaps, -⟩ | ⟨hacked, -, heq⟩ := role.preCommit_cases (some .newBuffer)
    · grind
    · cases hunmaps.2
    · rw [heq]
      exact ⟨fun _ => hacked rfl, fun _ => nofun⟩
  · obtain ⟨hstate, -⟩ := hooks_once hq (honce _ he)
    grind [handle_commit]
  · obtain ⟨hstate, hrejected⟩ := hooks_once hq (honce _ he)
    rw [ToplevelState.preCommit_unmaps hunmaps] at hstate hrejected
    refine ⟨{ q.surface with toplevel := some role.afterUnmap }, role.afterUnmap, ?_, rfl, rfl, rfl, rfl, rfl⟩
    grind [handle_commit]
  · obtain ⟨force, he⟩ := handle_configure hsome
    rw [he, handle_sendConfigure hrole] at hsome
    exact (hq.role.prepareConfigure force (hsparing.serial role force hrole he)).2 hsome

theorem hooks_le_one_of_promised (hrole : q.surface.toplevel = some role)
    (hunmaps : role.Unmaps pending) (h : q.Promised role (.commit pending)) : q.surface.hooks ≤ 1 := by
  by_contra hmore
  obtain ⟨hooks, hhooks⟩ := Nat.exists_eq_add_of_le' (Nat.not_le.mp hmore)
  obtain ⟨surface, role', hhandle, hrole', -, hready, -⟩ := h.fresh pending rfl hunmaps
  rw [handle_commit hrole] at hhandle
  grind [ToplevelState.invokePreCommitHooks_ready]

theorem settled (hq : q.Kept role) : q.Settled role := by
  rw [Settled, ← hq.role.lastSent]
  exact hq.role.requested

end Session

/-- A role object over every run in which no unmapping commit meets a second hook. -/
theorem toplevel_mapping_protocol {q : Session} {es : List Request} (run : Run Session.SparingStep Session.start es q)
    {role : ToplevelState} (hrole : q.surface.toplevel = some role) :
    q.Settled role ∧ (∀ e, q.Sparing e → q.Promised role e)
      ∧ ∀ pending, role.Unmaps pending → (q.Promised role (.commit pending) ↔ q.surface.hooks ≤ 1) := by
  have hq := Session.run_kept run role hrole
  exact ⟨Session.settled hq, fun e => Session.promised hq hrole, fun pending hunmaps =>
    ⟨Session.hooks_le_one_of_promised hrole hunmaps, fun hone =>
      Session.promised hq hrole ⟨fun _ _ _ _ _ => hone, fun _ _ _ he => nomatch he⟩⟩⟩

/-- The requests that bring a second role object of a surface onto the screen. -/
def remapped : List Request :=
  [.getToplevel, .destroyToplevel, .getToplevel, .commit none, .sendConfigure true, .ackConfigure 1,
    .commit (some .newBuffer)]

/-- The second hook takes the unmapping commit for the initial commit of the next mapping. -/
theorem recreated_role_is_ready_after_unmapping : ¬ ∀ (q : Session) (es : List Request),
    Run Session.Step Session.start es q → ∀ role, q.surface.toplevel = some role →
      q.Settled role ∧ ∀ e, q.Promised role e := by
  intro h
  have run : Run Session.Step Session.start remapped _ :=
    .cons rfl (.cons rfl (.cons rfl (.cons rfl (.cons rfl (.cons rfl (.cons rfl (.nil _)))))))
  have hhooks := Session.hooks_le_one_of_promised rfl ⟨rfl, rfl⟩ ((h _ _ run _ rfl).2 (.commit (some .removed)))
  exact absurd hhooks (by decide)

theorem toplevel_mapping_protocol_once : ∃ (q : Session) (role : ToplevelState),
    Run Session.SparingStep Session.start [.getToplevel, .commit none] q
      ∧ q.surface.toplevel = some role ∧ q.Settled role := by
  have run : Run Session.SparingStep Session.start [.getToplevel, .commit none] _ :=
    .cons ⟨⟨fun _ _ _ he => (nomatch he), fun _ _ _ he => (nomatch he)⟩, rfl⟩
      (.cons ⟨⟨fun _ _ _ _ _ => Nat.le_refl _, fun _ _ _ he => nomatch he⟩, rfl⟩ (.nil _))
  exact ⟨_, _, run, rfl, (toplevel_mapping_protocol run rfl).1⟩

end TensorDE.Protocol.XdgShell
