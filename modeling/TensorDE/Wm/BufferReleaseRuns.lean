import Mathlib.Data.List.Chain
import Mathlib.Data.List.ReduceOption
import Mathlib.Data.List.Pairwise
import TensorDE.Lib.Trace
import TensorDE.Wm.BufferRelease

set_option linter.dupNamespace false

namespace TensorDE.Wm.Compositor

open TensorDE.Trace List

variable {B R : Type} [DecidableEq B]

namespace BufferAssignment

/-- Of two assignments one after the other, the first goes or is named again. -/
theorem supersededBy_assigned (current next : Option (BufferAssignment B)) :
    (supersededBy current next ++ assigned (if next.isSome then next else current)).Sublist
      (assigned current ++ assigned next) := by
  cases next with
  | none =>
    cases current with
    | none => exact List.Sublist.refl _
    | some assignment => cases assignment <;> exact List.Sublist.refl _
  | some next =>
    cases current with
    | none => exact List.Sublist.refl _
    | some assignment =>
      cases assignment with
      | removed => cases next <;> exact List.Sublist.refl _
      | newBuffer previous attachment =>
        cases next with
        | removed => exact List.Sublist.refl _
        | newBuffer buffer attachment' =>
          change ((if buffer = previous then [] else [(previous, attachment)]) ++ [(buffer, attachment')]).Sublist
            [(previous, attachment), (buffer, attachment')]
          split_ifs
          · exact sublist_cons_self _ _
          · exact List.Sublist.refl _

theorem supersededBy_covers {current next : Option (BufferAssignment B)}
    (hsorted : ∀ x ∈ assigned current, ∀ y ∈ assigned next, x.2 < y.2) {x : B × Nat}
    (hx : x ∈ assigned current ++ assigned next) :
    ∃ y ∈ supersededBy current next ++ assigned (if next.isSome then next else current), y.1 = x.1 ∧ x.2 ≤ y.2 := by
  cases next with
  | none =>
    obtain hin | hin := mem_append.mp hx
    · grind
    · cases hin
  | some next =>
    obtain hin | hin := mem_append.mp hx
    · cases current with
      | none => cases hin
      | some assignment =>
        cases assignment with
        | removed => cases hin
        | newBuffer previous attachment =>
          cases next with
          | removed => exact ⟨_, mem_append_left _ hin, rfl, Nat.le_refl _⟩
          | newBuffer buffer attachment' => grind [mem_singleton_self, supersededBy, assigned]
    grind

omit [DecidableEq B] in
theorem eq_of_mem_assigned {assignment : Option (BufferAssignment B)} {x : B × Nat} (hx : x ∈ assigned assignment) :
    assignment = some (.newBuffer x.1 x.2) := by
  cases assignment with
  | none => cases hx
  | some assignment =>
    cases assignment with
    | removed => cases hx
    | newBuffer buffer attachment =>
      obtain rfl := mem_singleton.mp hx
      rfl

/-- What the assignments of a list put out of the way, one after the other. -/
def supersededIn : Option (BufferAssignment B) → List (Option (BufferAssignment B)) → List (B × Nat)
  | _, [] => []
  | current, next :: rest => supersededBy current next ++ supersededIn (if next.isSome then next else current) rest

def Stays (Matters : B → Prop) (x y : BufferAssignment B) : Prop :=
  ∀ buffer attachment, x = .newBuffer buffer attachment → Matters buffer → ∃ again, y = .newBuffer buffer again

theorem forall_supersededBy_iff {Matters : B → Prop} {x y : BufferAssignment B} :
    (∀ z ∈ supersededBy (some x) (some y), ¬Matters z.1) ↔ Stays Matters x y := by
  cases x with
  | removed => grind [Stays, supersededBy]
  | newBuffer previous attachment =>
    cases y with
    | removed => grind [mem_singleton_self, supersededBy, Stays]
    | newBuffer buffer attachment' => grind [supersededBy, mem_singleton_self, Stays]

theorem forall_supersededIn_iff {Matters : B → Prop} {current : Option (BufferAssignment B)}
    {updates : List (Option (BufferAssignment B))} : (∀ z ∈ supersededIn current updates, ¬Matters z.1)
      ↔ List.IsChain (Stays Matters) (current :: updates).reduceOption := by
  induction updates generalizing current with
  | nil =>
    refine ⟨fun _ => ?_, fun _ z hz => by cases hz⟩
    cases current with
    | none => exact .nil
    | some x => exact .singleton x
  | cons next rest ih =>
    rw [supersededIn, forall_mem_append, ih]
    cases next with
    | none =>
      have hnone : supersededBy current none = [] := by
        cases current with
        | none => rfl
        | some x => cases x <;> rfl
      rw [hnone, Option.isSome_none, if_neg Bool.false_ne_true]
      cases current with
      | none => exact ⟨fun h => h.2, fun h => ⟨fun _ hz => absurd hz not_mem_nil, h⟩⟩
      | some x => exact ⟨fun h => h.2, fun h => ⟨fun _ hz => absurd hz not_mem_nil, h⟩⟩
    | some y =>
      cases current with
      | none => exact ⟨fun h => h.2, fun h => ⟨fun _ hz => absurd hz not_mem_nil, h⟩⟩
      | some x =>
        rw [forall_supersededBy_iff]
        exact isChain_cons_cons.symm

end BufferAssignment

open BufferAssignment

namespace SurfaceAttributes

theorem mergeAll_buffers {updates : List (SurfaceAttributes B R)} {current : SurfaceAttributes B R}
    (hquiet : ∀ update ∈ updates, update.released = [])
    (hsorted : (assigned current.buffer ++ updates.flatMap fun update => assigned update.buffer).Pairwise
      fun x y => x.2 < y.2) : ∃ out, (CachedState.mergeAll updates current).released = current.released ++ out
      ∧ (out ++ assigned (CachedState.mergeAll updates current).buffer).Sublist
        (assigned current.buffer ++ updates.flatMap fun update => assigned update.buffer)
      ∧ ∀ x ∈ assigned current.buffer ++ updates.flatMap (fun update => assigned update.buffer),
        ∃ y ∈ out ++ assigned (CachedState.mergeAll updates current).buffer, y.1 = x.1 ∧ x.2 ≤ y.2 := by
  induction updates generalizing current with
  | nil =>
    refine ⟨[], (append_nil _).symm, ?_, fun x hx => ⟨x, ?_, rfl, Nat.le_refl _⟩⟩
    · simp
    · simpa using hx
  | cons update rest ih =>
    set merged := mergeInto update current with hmerged
    set superseded := supersededBy current.buffer update.buffer with hsuperseded
    have hsub := supersededBy_assigned current.buffer update.buffer
    have hreleased : merged.released = current.released ++ superseded := by
      rw [hmerged, mergeInto, hquiet update mem_cons_self, append_nil]
    rw [flatMap_cons, ← append_assoc] at hsorted
    have hrest : (assigned merged.buffer ++ rest.flatMap fun update => assigned update.buffer).Sublist
        ((assigned current.buffer ++ assigned update.buffer) ++ rest.flatMap fun update => assigned update.buffer) :=
      ((sublist_append_right _ _).trans hsub).append_right _
    obtain ⟨out, hout, hkept, hcovered⟩ := ih (fun u hu => hquiet u (mem_cons_of_mem _ hu)) (hsorted.sublist hrest)
    refine ⟨superseded ++ out, ?_, ?_, fun x hx => ?_⟩
    · change (CachedState.mergeAll rest merged).released = _
      rw [hout, hreleased, append_assoc]
    · rw [flatMap_cons, ← append_assoc, append_assoc superseded]
      refine (hkept.append_left superseded).trans ?_
      rw [← append_assoc]
      exact hsub.append_right _
    · rw [flatMap_cons, ← append_assoc] at hx
      obtain hx | hx := mem_append.mp hx
      · have hless : ∀ x ∈ assigned current.buffer, ∀ y ∈ assigned update.buffer, x.2 < y.2 :=
          (pairwise_append.mp (pairwise_append.mp hsorted).1).2.2
        obtain ⟨y, hy, hname, hle⟩ := supersededBy_covers hless hx
        obtain hy | hy := mem_append.mp hy
        · grind
        · obtain ⟨z, hz, hname', hle'⟩ := hcovered y (mem_append_left _ hy)
          rw [append_assoc]
          exact ⟨z, mem_append_right _ hz, hname'.trans hname, hle.trans hle'⟩
      · obtain ⟨z, hz, hname, hle⟩ := hcovered x (mem_append_right _ hx)
        rw [append_assoc]
        exact ⟨z, mem_append_right _ hz, hname, hle⟩

theorem mergeAll_released {updates : List (SurfaceAttributes B R)} {current : SurfaceAttributes B R}
    (hquiet : ∀ update ∈ updates, update.released = []) : (CachedState.mergeAll updates current).released
      = current.released ++ supersededIn current.buffer (updates.map buffer) := by
  induction updates generalizing current with
  | nil => exact (append_nil _).symm
  | cons update rest ih =>
    have hreleased : (mergeInto update current).released
        = current.released ++ supersededBy current.buffer update.buffer := by
      rw [mergeInto, hquiet update mem_cons_self, append_nil]
    change (CachedState.mergeAll rest (mergeInto update current)).released = _
    rw [ih fun u hu => hquiet u (mem_cons_of_mem _ hu), hreleased, append_assoc]
    rfl

end SurfaceAttributes

namespace BufferedSurface

variable (s : BufferedSurface B R)

/-- The attachments that were committed and are neither released nor replaced, in order. -/
def held : List (B × Nat) :=
  s.buffer.toList ++ (assigned s.cached.current.buffer ++ s.cached.cache.flatMap fun queued => assigned queued.state.buffer)

def trail : List (B × Nat) := s.held ++ assigned s.cached.pending.buffer

def waiting : List (B × Nat) :=
  s.cached.cache.flatMap (fun queued => assigned queued.state.buffer) ++ assigned s.cached.pending.buffer

def Covered (x : B × Nat) : Prop :=
  (∃ y ∈ s.held, y.1 = x.1 ∧ x.2 ≤ y.2) ∨ ∃ sent ∈ s.releases, sent.buffer = x.1 ∧ x.2 ≤ sent.attachment

def sent : List (B × Nat) := s.releases.map fun release => (release.buffer, release.attachment)

variable (wireBufferSize : B → Option (Int × Int))

structure Sound (s : BufferedSurface B R) : Prop where
  ids : ∀ queued ∈ s.cached.cache, queued.id < s.currentCommit
  pending : s.cached.pending.released = []
  current : s.cached.current.released = []
  queue : ∀ queued ∈ s.cached.cache, queued.state.released = []
  sorted : s.trail.Pairwise fun x y => x.2 < y.2
  fresh : ∀ x ∈ s.trail, x.2 < s.attachments
  spent : ∀ x ∈ s.sent, x.2 < s.attachments ∧ ∀ y ∈ s.trail, x.2 ≠ y.2
  once : (s.sent.map Prod.snd).Nodup
  before : ∀ x ∈ s.sent, ∀ y ∈ s.waiting, x.2 < y.2
  known : ∀ queued ∈ s.cached.cache, ∀ x ∈ assigned queued.state.buffer, x ∈ s.committed
  covered : ∀ x ∈ s.committed, s.alive x.1 = true → s.Covered x
  sized : ∀ shown, s.buffer = some shown → (wireBufferSize shown.1).isSome = true

variable {wireBufferSize} {s s' : BufferedSurface B R} {out : List (B × Nat)}

omit [DecidableEq B] in
theorem mem_sent {x : B × Nat} : x ∈ s.sent ↔ ∃ release ∈ s.releases, release.buffer = x.1 ∧ release.attachment = x.2 := by
  grind [sent]

omit [DecidableEq B] in
theorem covered_iff {x : B × Nat} : s.Covered x ↔ (∃ y ∈ s.held, y.1 = x.1 ∧ x.2 ≤ y.2)
    ∨ ∃ y ∈ s.sent, y.1 = x.1 ∧ x.2 ≤ y.2 := by
  apply or_congr_right
  constructor
  · rintro ⟨release, hmem, hbuffer, hle⟩
    exact ⟨_, mem_map.mpr ⟨release, hmem, rfl⟩, hbuffer, hle⟩
  grind [mem_sent]

/-- What some attachments of the trail that are released leave of the books. -/
structure Turned (s s' : BufferedSurface B R) (out : List (B × Nat)) : Prop where
  sub : (out ++ s'.trail).Subperm s.trail
  trail : s'.trail.Sublist s.trail
  waiting : s'.waiting.Sublist s.waiting
  late : ∀ x ∈ out, ∀ y ∈ s'.waiting, x.2 < y.2
  sent : s'.sent = s.sent ++ out.filter fun x => s.alive x.1
  alive : s'.alive = s.alive
  attachments : s'.attachments = s.attachments

omit [DecidableEq B] in
theorem ids_nodup (h : s.trail.Pairwise fun x y => x.2 < y.2) : (s.trail.map Prod.snd).Nodup := by
  grind

omit [DecidableEq B] in
theorem nodup_sent (hsub : out.Subperm s.trail) (hsorted : s.trail.Pairwise fun x y => x.2 < y.2)
    (hspent : ∀ x ∈ s.sent, x.2 < s.attachments ∧ ∀ y ∈ s.trail, x.2 ≠ y.2) (honce : (s.sent.map Prod.snd).Nodup)
    (hsent : s'.sent = s.sent ++ out.filter fun x => s.alive x.1) : (s'.sent.map Prod.snd).Nodup := by
  have hout : (out.map Prod.snd).Nodup := by
    obtain ⟨kept, hperm, hkept⟩ := hsub
    exact (hperm.map Prod.snd).nodup_iff.mp ((ids_nodup hsorted).sublist (hkept.map Prod.snd))
  rw [hsent, map_append, nodup_append']
  refine ⟨honce, hout.sublist (filter_sublist.map Prod.snd), fun n hn hn' => ?_⟩
  obtain ⟨x, hx, rfl⟩ := mem_map.mp hn
  obtain ⟨y, hy, heq⟩ := mem_map.mp hn'
  exact (hspent x hx).2 y (hsub.subset (mem_of_mem_filter hy)) heq.symm

namespace Turned

omit [DecidableEq B]

theorem distinct (h : s.Turned s' out) (hsorted : s.trail.Pairwise fun x y => x.2 < y.2) :
    ((out ++ s'.trail).map Prod.snd).Nodup := by
  obtain ⟨kept, hperm, hsub⟩ := h.sub
  grind [ids_nodup]

theorem once (h : s.Turned s' out) (hsorted : s.trail.Pairwise fun x y => x.2 < y.2)
    (hspent : ∀ x ∈ s.sent, x.2 < s.attachments ∧ ∀ y ∈ s.trail, x.2 ≠ y.2) (honce : (s.sent.map Prod.snd).Nodup) :
    (s'.sent.map Prod.snd).Nodup :=
  nodup_sent ((sublist_append_left _ _).subperm.trans h.sub) hsorted hspent honce h.sent

theorem spent (h : s.Turned s' out) (hsorted : s.trail.Pairwise fun x y => x.2 < y.2)
    (hfresh : ∀ x ∈ s.trail, x.2 < s.attachments)
    (hspent : ∀ x ∈ s.sent, x.2 < s.attachments ∧ ∀ y ∈ s.trail, x.2 ≠ y.2) :
    ∀ x ∈ s'.sent, x.2 < s'.attachments ∧ ∀ y ∈ s'.trail, x.2 ≠ y.2 := by
  grind [h.sent, h.attachments, h.sub.subset, h.distinct, nodup_append', mem_map_of_mem]

theorem before (h : s.Turned s' out) (hbefore : ∀ x ∈ s.sent, ∀ y ∈ s.waiting, x.2 < y.2) :
    ∀ x ∈ s'.sent, ∀ y ∈ s'.waiting, x.2 < y.2 := by
  intro x hx y hy
  grind [h.sent, h.waiting.subset, h.late]

theorem covered (h : s.Turned s' out)
    (hheld : ∀ x ∈ s.held, s.alive x.1 = true → ∃ y ∈ out ++ s'.held, y.1 = x.1 ∧ x.2 ≤ y.2) {x : B × Nat}
    (hx : s.Covered x) (halive : s'.alive x.1 = true) : s'.Covered x := by
  rw [h.alive] at halive
  rw [covered_iff] at hx ⊢
  obtain ⟨y, hy, hname, hle⟩ | ⟨y, hy, hname, hle⟩ := hx
  · obtain ⟨z, hz, hname', hle'⟩ := hheld y hy (hname ▸ halive)
    grind -linarith [h.sent]
  grind -linarith [h.sent]

end Turned

omit [DecidableEq B] in
theorem Sound.turn (h : s.Sound wireBufferSize) (hturned : s.Turned s' out)
    (hheld : ∀ x ∈ s.held, s.alive x.1 = true → ∃ y ∈ out ++ s'.held, y.1 = x.1 ∧ x.2 ≤ y.2)
    (hcommitted : s'.committed = s.committed) (hids : ∀ queued ∈ s'.cached.cache, queued.id < s'.currentCommit)
    (hpending : s'.cached.pending.released = []) (hcurrent : s'.cached.current.released = [])
    (hqueue : ∀ queued ∈ s'.cached.cache, queued ∈ s.cached.cache)
    (hsized : ∀ shown, s'.buffer = some shown → (wireBufferSize shown.1).isSome = true) : s'.Sound wireBufferSize where
  ids := hids
  pending := hpending
  current := hcurrent
  queue := fun queued hq => h.queue queued (hqueue queued hq)
  sorted := h.sorted.sublist hturned.trail
  fresh := fun x hx => hturned.attachments ▸ h.fresh x (hturned.trail.subset hx)
  spent := hturned.spent h.sorted h.fresh h.spent
  once := hturned.once h.sorted h.spent h.once
  before := hturned.before h.before
  known := fun queued hq x hx => hcommitted ▸ h.known queued (hqueue queued hq) x hx
  covered := fun x hx halive =>
    hturned.covered hheld (h.covered x (hcommitted ▸ hx) (hturned.alive ▸ halive)) halive
  sized := hsized

/-! ### Commits -/

theorem foldl_release (released : List (B × Nat)) (s : BufferedSurface B R) :
    released.foldl (fun s released => s.release released.1 released.2 (s.displays released.1)) s
      = { s with releases := s.releases ++ (released.filter fun x => s.alive x.1).map fun x =>
        ⟨x.1, x.2, s.displays x.1⟩ } := by
  induction released generalizing s with
  | nil => simp
  | cons x rest ih => grind [release, displays]

theorem sendReleased_eq (s : BufferedSurface B R) : s.sendReleased = { s with
    cached := { s.cached with current := { s.cached.current with released := [] } }
    releases := s.releases ++ (s.cached.current.released.filter fun x => s.alive x.1).map fun x =>
      ⟨x.1, x.2, s.displays x.1⟩ } := by
  rw [sendReleased, foldl_release]

theorem Sound.merge (h : s.Sound wireBufferSize) {taken rest : List (Queued (SurfaceAttributes B R))}
    {cached : CachedState (SurfaceAttributes B R)} (hcache : s.cached.cache = taken ++ rest) (hrest : cached.cache = rest)
    (hpending : cached.pending = s.cached.pending)
    (hcurrent : cached.current = CachedState.mergeAll (taken.map Queued.state) s.cached.current) :
    Sound wireBufferSize (sendReleased { s with cached := cached }) := by
  have hquiet : ∀ update ∈ taken.map Queued.state, update.released = [] := by
    intro update hupdate
    obtain ⟨queued, hqueued, rfl⟩ := mem_map.mp hupdate
    exact h.queue queued (hcache ▸ mem_append_left _ hqueued)
  set shown := s.buffer.toList with hshown
  set incoming := assigned s.cached.current.buffer ++ (taken.map Queued.state).flatMap fun update => assigned update.buffer
    with hincoming
  set others := rest.flatMap fun queued => assigned queued.state.buffer with hothers
  set last := assigned s.cached.pending.buffer with hlast
  have hheld : s.held = shown ++ (incoming ++ others) := by
    rw [held, hcache, flatMap_append, hincoming, flatMap_map, append_assoc]
  have htrail : s.trail = shown ++ (incoming ++ (others ++ last)) := by
    rw [trail, hheld, append_assoc, append_assoc]
  have hsorted : incoming.Pairwise fun x y => x.2 < y.2 :=
    (pairwise_append.mp (pairwise_append.mp (htrail ▸ h.sorted)).2.1).1
  obtain ⟨out, hreleased, hsub, hcovered⟩ := SurfaceAttributes.mergeAll_buffers hquiet hsorted
  rw [h.current, nil_append, ← hcurrent] at hreleased
  rw [← hcurrent] at hsub hcovered
  rw [sendReleased_eq]
  have hheld' : ∀ releases, held { s with
      cached := { cached with current := { cached.current with released := [] } }
      releases := releases } = shown ++ (assigned cached.current.buffer ++ others) := by
    intro releases
    rw [held]
    dsimp only
    rw [hrest]
  have htrail' : ∀ releases, trail { s with
      cached := { cached with current := { cached.current with released := [] } }
      releases := releases } = shown ++ (assigned cached.current.buffer ++ (others ++ last)) := by
    intro releases
    rw [trail, hheld']
    dsimp only
    rw [hpending, append_assoc, append_assoc]
  have hwaiting : s.waiting = (taken.flatMap fun queued => assigned queued.state.buffer) ++ (others ++ last) := by
    rw [waiting, hcache, flatMap_append, append_assoc]
  have hwaiting' : ∀ releases, waiting { s with
      cached := { cached with current := { cached.current with released := [] } }
      releases := releases } = others ++ last := by
    intro releases
    rw [waiting]
    rw [hrest, hpending]
  have hlate : ∀ x ∈ incoming, ∀ y ∈ others ++ last, x.2 < y.2 :=
    (pairwise_append.mp (pairwise_append.mp (htrail ▸ h.sorted)).2.1).2.2
  refine h.turn (show Turned s _ out from ⟨?_, ?_, ?_, fun x hx y hy => ?_, ?_, rfl, rfl⟩) (fun x hx _ => ?_) rfl
    (fun q hq => ?_) ?_ rfl (fun q hq => ?_) h.sized
  · rw [htrail', htrail]
    have hperm : (out ++ (shown ++ (assigned cached.current.buffer ++ (others ++ last)))).Perm
        (shown ++ ((out ++ assigned cached.current.buffer) ++ (others ++ last))) := by
      rw [← append_assoc, append_assoc out (assigned _), ← append_assoc shown out]
      exact perm_append_comm.append_right _
    exact ⟨_, hperm.symm, (hsub.append_right _).append_left _⟩
  · rw [htrail', htrail]
    exact (((sublist_append_right _ _).trans hsub).append_right _).append_left _
  · grind
  · exact hlate x (hsub.subset (mem_append_left _ hx)) y (hwaiting' _ ▸ hy)
  · rw [sent, map_append, map_map, hreleased]
    exact congrArg (s.sent ++ ·) (map_id _)
  · rw [hheld] at hx
    rw [hheld']
    obtain hx | hx := mem_append.mp hx
    · grind
    · obtain hx | hx := mem_append.mp hx
      · obtain ⟨y, hy, hname, hle⟩ := hcovered x hx
        grind +splitImp +splitIndPred
      grind
  · exact h.ids q (hcache ▸ mem_append_right _ (hrest ▸ hq))
  · grind [h.pending]
  grind

/-- The commit joins the queue. -/
def shelve (s : BufferedSurface B R) : BufferedSurface B R :=
  { s with
    committed := s.committed ++ assigned s.cached.pending.buffer
    cached := { s.cached with
      pending := (SurfaceAttributes.commit s.cached.pending).1
      cache := s.cached.cache ++ [⟨s.currentCommit, (SurfaceAttributes.commit s.cached.pending).2, [0]⟩] }
    currentCommit := s.currentCommit + 1 }

omit [DecidableEq B] in
theorem held_shelve (s : BufferedSurface B R) : s.shelve.held = s.trail := by
  grind [trail, held, shelve, SurfaceAttributes.commit]

omit [DecidableEq B] in
theorem trail_shelve (s : BufferedSurface B R) : s.shelve.trail = s.trail := by
  rw [trail, held_shelve]
  exact append_nil _

omit [DecidableEq B] in
theorem waiting_shelve (s : BufferedSurface B R) : s.shelve.waiting = s.waiting := by
  grind [waiting, shelve, SurfaceAttributes.commit, assigned]

omit [DecidableEq B] in
theorem Sound.shelve (h : s.Sound wireBufferSize) : s.shelve.Sound wireBufferSize := by
  refine ⟨fun q hq => ?_, h.pending, h.current, fun q hq => ?_, trail_shelve s ▸ h.sorted, trail_shelve s ▸ h.fresh,
    ?_, h.once, waiting_shelve s ▸ h.before, fun q hq x hx => ?_, fun x hx halive => ?_, h.sized⟩
  · obtain hq | hq := mem_append.mp hq
    · exact Nat.lt_succ_of_lt (h.ids q hq)
    · rw [mem_singleton.mp hq]
      exact Nat.lt_succ_self _
  · obtain hq | hq := mem_append.mp hq
    · exact h.queue q hq
    · rw [mem_singleton.mp hq]
      exact h.pending
  · rw [trail_shelve]
    exact h.spent
  · obtain hq | hq := mem_append.mp hq
    · exact mem_append_left _ (h.known q hq x hx)
    · rw [mem_singleton.mp hq] at hx
      exact mem_append_right _ hx
  · rw [Covered, held_shelve]
    obtain hx | hx := mem_append.mp hx
    · obtain ⟨y, hy, hcovers⟩ | hsent := h.covered x hx halive
      · exact .inl ⟨y, mem_append_left _ hy, hcovers⟩
      · exact .inr hsent
    · exact .inl ⟨x, mem_append_right _ hx, rfl, Nat.le_refl _⟩

omit [DecidableEq B] in
theorem Sound.renumber (h : s.Sound wireBufferSize) {commit : Nat} (hids : ∀ queued ∈ s.cached.cache, queued.id < commit) :
    Sound wireBufferSize { s with currentCommit := commit } :=
  ⟨hids, h.pending, h.current, h.queue, h.sorted, h.fresh, h.spent, h.once, h.before, h.known, h.covered, h.sized⟩

theorem Sound.commit (h : s.Sound wireBufferSize) (held : Bool) : (s.commit held).Sound wireBufferSize := by
  cases held with
  | true =>
    have hcommit := CachedState.commit_some 0 h.ids
    rw [BufferedSurface.commit, if_pos rfl, if_pos rfl, hcommit]
    exact h.shelve.merge (nil_append _).symm rfl rfl rfl
  | false =>
    rw [BufferedSurface.commit, if_neg Bool.false_ne_true, if_neg Bool.false_ne_true]
    obtain ⟨hpending, hcache, hcurrent⟩ := s.cached.commit_none 0
    have hmerged : Sound wireBufferSize (sendReleased { s.shelve with cached := s.cached.commit none 0 }) := by
      refine h.shelve.merge (append_nil _).symm hcache hpending ?_
      rw [hcurrent, BufferedSurface.shelve, map_append]
      rfl
    rw [sendReleased_eq] at hmerged ⊢
    refine hmerged.renumber fun q hq => ?_
    rw [hcache] at hq
    cases hq

theorem Sound.apply (h : s.Sound wireBufferSize) (commit : Nat) : (s.apply commit).Sound wireBufferSize := by
  obtain ⟨hcache, hpending, hcurrent⟩ := CachedState.applyLoop_eq commit s.cached.cache s.cached
  exact h.merge takeWhile_append_dropWhile.symm hcache hpending hcurrent

omit [DecidableEq B] in
theorem Sound.attach (h : s.Sound wireBufferSize) (buffer : Option B) : (s.attach buffer).Sound wireBufferSize := by
  have htrail : (s.attach buffer).trail = s.held ++ (buffer.toList.map fun buffer => (buffer, s.attachments)) := by
    cases buffer <;> rfl
  have hheld : ∀ x ∈ s.held, x ∈ s.trail := fun x hx => mem_append_left _ hx
  have hnew : ∀ x ∈ buffer.toList.map (fun buffer => (buffer, s.attachments)), x.2 = s.attachments := by
    intro x hx
    obtain ⟨_, -, rfl⟩ := mem_map.mp hx
    rfl
  have hwaiting : (s.attach buffer).waiting = s.cached.cache.flatMap (fun queued => assigned queued.state.buffer)
      ++ (buffer.toList.map fun buffer => (buffer, s.attachments)) := by
    cases buffer <;> rfl
  refine ⟨h.ids, h.pending, h.current, h.queue, ?_, fun x hx => ?_, fun x hx => ⟨?_, fun y hy => ?_⟩, h.once,
    fun x hx y hy => ?_, h.known, h.covered, h.sized⟩
  · rw [htrail, pairwise_append]
    refine ⟨h.sorted.sublist (sublist_append_left _ _), ?_, fun x hx y hy => ?_⟩
    · grind
    · rw [hnew y hy]
      exact h.fresh x (hheld x hx)
  · rw [htrail] at hx
    obtain hx | hx := mem_append.mp hx
    · exact Nat.lt_succ_of_lt (h.fresh x (hheld x hx))
    · exact hnew x hx ▸ Nat.lt_succ_self _
  · exact Nat.lt_succ_of_lt (h.spent x hx).1
  · rw [htrail] at hy
    obtain hy | hy := mem_append.mp hy
    · exact (h.spent x hx).2 y (hheld y hy)
    · rw [hnew y hy]
      exact Nat.ne_of_lt (h.spent x hx).1
  · rw [hwaiting] at hy
    obtain hy | hy := mem_append.mp hy
    · exact h.before x hx y (mem_append_left _ hy)
    · rw [hnew y hy]
      exact (h.spent x hx).1

/-! ### The displayed buffer -/

omit [DecidableEq B] in
theorem Sound.display (h : s.Sound wireBufferSize) {buffer : Option (B × Nat)} {bufferSize : Option (Int × Int)}
    {releases : List (Release B)} (hsub : (out ++ buffer.toList).Subperm (s.buffer.toList ++ assigned s.cached.current.buffer))
    (hkept : buffer.toList.Sublist (s.buffer.toList ++ assigned s.cached.current.buffer))
    (hcovers : ∀ x ∈ s.buffer.toList ++ assigned s.cached.current.buffer,
      ∃ y ∈ out ++ buffer.toList, y.1 = x.1 ∧ x.2 ≤ y.2)
    (hsent : releases.map (fun release => (release.buffer, release.attachment)) = s.sent ++ out.filter fun x => s.alive x.1)
    (hsized : ∀ shown, buffer = some shown → (wireBufferSize shown.1).isSome = true) :
    Sound wireBufferSize { s with
      buffer := buffer
      bufferSize := bufferSize
      cached := { s.cached with current := { s.cached.current with buffer := none } }
      releases := releases } := by
  set others := s.cached.cache.flatMap fun queued => assigned queued.state.buffer with hothers
  set last := assigned s.cached.pending.buffer with hlast
  have htrail : s.trail = (s.buffer.toList ++ assigned s.cached.current.buffer) ++ (others ++ last) := by
    rw [trail, held, append_assoc, append_assoc, append_assoc]
  have htrail' : trail { s with
      buffer := buffer
      bufferSize := bufferSize
      cached := { s.cached with current := { s.cached.current with buffer := none } }
      releases := releases } = buffer.toList ++ (others ++ last) := by
    rw [trail, held, append_assoc]
    rfl
  have hlate := (pairwise_append.mp (htrail ▸ h.sorted)).2.2
  refine h.turn (show Turned s _ out from ⟨?_, ?_, List.Sublist.refl _, fun x hx y hy => ?_, hsent, rfl, rfl⟩)
    (fun x hx _ => ?_) rfl h.ids h.pending h.current (fun q hq => hq) hsized
  · grind [subperm_append_right]
  · grind
  · exact hlate x (hsub.subset (mem_append_left _ hx)) y hy
  · rw [held, ← append_assoc] at hx
    obtain hx | hx := mem_append.mp hx
    · obtain ⟨y, hy, hname, hle⟩ := hcovers x hx
      obtain hy | hy := mem_append.mp hy
      · grind
      · exact ⟨y, mem_append_right _ (mem_append_left _ hy), hname, hle⟩
    · exact ⟨x, mem_append_right _ (mem_append_right _ (mem_append_right _ hx)), rfl, Nat.le_refl _⟩

omit [DecidableEq B] in
theorem release_eq (s : BufferedSurface B R) (buffer : B) (attachment : Nat) (inUse : Bool) :
    s.release buffer attachment inUse = { s with
      releases := s.releases ++ ([(buffer, attachment)].filter fun x => s.alive x.1).map fun x => ⟨x.1, x.2, inUse⟩ } := by
  unfold release
  by_cases halive : s.alive buffer = true
  · simp [halive]
  · simp [halive]

theorem releaseBuffer_eq (s : BufferedSurface B R) : s.releaseBuffer = { s with
    buffer := none
    releases := s.releases ++ (s.buffer.toList.filter fun x => s.alive x.1).map fun x =>
      ⟨x.1, x.2, holds { s with buffer := none } x.1⟩ } := by
  obtain ⟨cached, currentCommit, buffer, bufferSize, destroyed, alive, attachments, committed, releases⟩ := s
  grind [releaseBuffer, release]

omit [DecidableEq B] in
theorem map_named (out : List (B × Nat)) (f : B × Nat → Bool) :
    (out.map fun x => (⟨x.1, x.2, f x⟩ : Release B)).map (fun release => (release.buffer, release.attachment)) = out := by
  rw [map_map]
  exact map_id _

omit [DecidableEq B] in
theorem map_sent (out : List (B × Nat)) (f : B × Nat → Bool) : (s.releases ++ (out.filter fun x => s.alive x.1).map
    fun x => (⟨x.1, x.2, f x⟩ : Release B)).map (fun release => (release.buffer, release.attachment))
      = s.sent ++ out.filter fun x => s.alive x.1 := by
  rw [map_append, map_named]
  rfl

theorem displays_iff {buffer : B} : s.displays buffer = true ↔ ∃ n, s.buffer = some (buffer, n) := by
  unfold displays
  cases s.buffer with
  | none => simp
  | some shown => grind

theorem Sound.update (h : s.Sound wireBufferSize) : (s.update wireBufferSize).Sound wireBufferSize := by
  unfold BufferedSurface.update
  cases hcurrent : s.cached.current.buffer with
  | none => exact h
  | some assignment =>
    have hsorted : ∀ x ∈ s.buffer.toList, ∀ y ∈ assigned s.cached.current.buffer, x.2 < y.2 := by
      have htrail := h.sorted
      rw [trail, held, append_assoc, append_assoc, pairwise_append] at htrail
      exact fun x hx y hy => htrail.2.2 x hx y (mem_append_left _ hy)
    cases assignment with
    | removed =>
      rw [reset, releaseBuffer_eq]
      refine h.display (show (s.buffer.toList ++ none.toList).Subperm _ from ?_) (nil_sublist _) (fun x hx => ?_)
        (map_sent ..) nofun
      · rw [hcurrent]
        exact List.Subperm.refl _
      · rw [hcurrent] at hx
        exact ⟨x, hx, rfl, Nat.le_refl _⟩
    | newBuffer buffer attachment =>
      dsimp only
      cases hsize : wireBufferSize buffer with
      | none =>
        dsimp only
        rw [release_eq, reset, releaseBuffer_eq]
        refine h.display (show (((buffer, attachment) :: s.buffer.toList) ++ none.toList).Subperm _ from ?_)
          (nil_sublist _) (fun x hx => ?_) ?_ nofun
        · rw [hcurrent]
          rw [Option.toList_none, append_nil]
          exact (perm_append_singleton _ _).symm.subperm
        · grind [assigned]
        · rw [map_append, map_named]
          refine (congrArg (· ++ _) (map_sent _ fun _ => s.takeCurrent.holds buffer)).trans ?_
          rw [append_assoc]
          exact congrArg (s.sent ++ ·) (filter_append [(buffer, attachment)] s.buffer.toList).symm
      | some size =>
        rw [replaceBuffer]
        split_ifs with hdisplays
        · obtain ⟨n, hshown⟩ : ∃ n, s.buffer = some (buffer, n) := (displays_iff).mp hdisplays
          refine h.display (show ([] ++ (some (buffer, attachment)).toList).Subperm _ from ?_) ?_ (fun x hx => ?_) ?_ ?_
          · rw [hcurrent]
            exact (sublist_append_right _ _).subperm
          · rw [hcurrent]
            exact sublist_append_right _ _
          · grind [mem_singleton_self, assigned]
          · exact (append_nil _).symm
          grind
        · rw [releaseBuffer_eq]
          refine h.display (show (s.buffer.toList ++ (some (buffer, attachment)).toList).Subperm _ from ?_) ?_ (fun x hx => ?_)
            (map_sent ..) ?_
          · rw [hcurrent]
            exact List.Subperm.refl _
          · rw [hcurrent]
            exact sublist_append_right _ _
          · rw [hcurrent] at hx
            exact ⟨x, hx, rfl, Nat.le_refl _⟩
          grind

/-! ### What is in use -/

def Unused (s : BufferedSurface B R) : Prop := ∀ sent ∈ s.releases, sent.inUse = false

def OnDisplay (s : BufferedSurface B R) (buffer : B) : Prop := s.alive buffer = true ∧ s.displays buffer = true

theorem unused_sendReleased (h : s.Unused) : s.sendReleased.Unused ↔
    ∀ x ∈ s.cached.current.released, ¬s.OnDisplay x.1 := by
  rw [sendReleased_eq]
  constructor
  · rintro hunused x hx ⟨halive, hdisplays⟩
    have hsent := hunused ⟨x.1, x.2, s.displays x.1⟩
      (mem_append_right _ (mem_map_of_mem (mem_filter.mpr ⟨hx, halive⟩)))
    grind
  · intro hnot sent hsent
    obtain hsent | hsent := mem_append.mp hsent
    · exact h sent hsent
    · obtain ⟨x, hx, rfl⟩ := mem_map.mp hsent
      obtain ⟨hmem, halive⟩ := mem_filter.mp hx
      exact Bool.eq_false_iff.mpr fun hdisplays => hnot x hmem ⟨halive, hdisplays⟩

/-- A merge takes no buffer on display out of use if the buffer, attached again, is not superseded. -/
theorem unused_merge (h : s.Sound wireBufferSize) (hunused : s.Unused) {taken : List (Queued (SurfaceAttributes B R))}
    (htaken : ∀ queued ∈ taken, queued.state.released = []) {cached : CachedState (SurfaceAttributes B R)}
    (hcurrent : cached.current = CachedState.mergeAll (taken.map Queued.state) s.cached.current)
    {commit : Nat} {committed : List (B × Nat)} :
    (sendReleased { s with cached := cached, currentCommit := commit, committed := committed }).Unused
      ↔ List.IsChain (Stays s.OnDisplay)
        (s.cached.current.buffer :: taken.map fun queued => queued.state.buffer).reduceOption := by
  have hquiet : ∀ update ∈ taken.map Queued.state, update.released = [] := by
    intro update hupdate
    obtain ⟨queued, hqueued, rfl⟩ := mem_map.mp hupdate
    exact htaken queued hqueued
  have hreleased : cached.current.released
      = supersededIn s.cached.current.buffer (taken.map fun queued => queued.state.buffer) := by
    rw [hcurrent, SurfaceAttributes.mergeAll_released hquiet, h.current, nil_append, map_map]
    rfl
  rw [← forall_supersededIn_iff, ← hreleased]
  exact unused_sendReleased hunused

omit [DecidableEq B] in
theorem unused_append {releases more : List (Release B)} (h : s.Unused) (hmore : ∀ sent ∈ more, sent.inUse = false)
    (heq : releases = s.releases ++ more) : ∀ sent ∈ releases, sent.inUse = false := by
  grind [Unused]

theorem unused_update (h : s.Sound wireBufferSize) (hunused : s.Unused) : (s.update wireBufferSize).Unused := by
  unfold BufferedSurface.update
  cases s.cached.current.buffer with
  | none => exact hunused
  | some assignment =>
    cases assignment with
    | removed =>
      rw [reset, releaseBuffer_eq]
      refine unused_append hunused (fun sent hsent => ?_) rfl
      obtain ⟨x, -, rfl⟩ := mem_map.mp hsent
      rfl
    | newBuffer buffer attachment =>
      dsimp only
      cases hsize : wireBufferSize buffer with
      | none =>
        rw [release_eq, reset, releaseBuffer_eq]
        refine unused_append hunused (fun sent hsent => ?_) (append_assoc ..)
        obtain hsent | hsent := mem_append.mp hsent
        · obtain ⟨x, -, rfl⟩ := mem_map.mp hsent
          -- what has no size is not on display
          have hnot : s.displays buffer = false := by
            rw [Bool.eq_false_iff]
            intro hdisplays
            obtain ⟨n, hshown⟩ := displays_iff.mp hdisplays
            have hsized := h.sized _ hshown
            rw [hsize] at hsized
            cases hsized
          change (s.displays buffer || false) = false
          rw [hnot]
          rfl
        · obtain ⟨x, -, rfl⟩ := mem_map.mp hsent
          rfl
      | some size =>
        rw [replaceBuffer]
        split_ifs
        · exact hunused
        · rw [releaseBuffer_eq]
          refine unused_append hunused (fun sent hsent => ?_) rfl
          obtain ⟨x, -, rfl⟩ := mem_map.mp hsent
          rfl

/-! ### The end of a surface -/

theorem releaseCurrent_eq (s : BufferedSurface B R) : ∃ cached : CachedState (SurfaceAttributes B R),
    cached.pending = s.cached.pending ∧ cached.cache = s.cached.cache ∧ assigned cached.current.buffer = []
    ∧ s.releaseCurrent = { s with
      cached := cached
      releases := s.releases ++ ((assigned s.cached.current.buffer).filter fun x => s.alive x.1).map fun x =>
        ⟨x.1, x.2, s.displays x.1⟩ } := by
  unfold releaseCurrent
  cases hcurrent : s.cached.current.buffer with
  | none => exact ⟨s.cached, rfl, rfl, hcurrent ▸ rfl, by simp [assigned]⟩
  | some assignment =>
    cases assignment with
    | removed => exact ⟨s.cached, rfl, rfl, hcurrent ▸ rfl, by simp [assigned]⟩
    | newBuffer buffer attachment => grind [release_eq, takeCurrent, assigned, holds, displays]

theorem releasePending_eq (s : BufferedSurface B R) (hnone : s.buffer = none)
    (hcurrent : assigned s.cached.current.buffer = []) : ∃ cached : CachedState (SurfaceAttributes B R),
    s.releasePending = { s with
      cached := cached
      releases := s.releases ++ ((assigned s.cached.pending.buffer).filter fun x => s.alive x.1).map fun x =>
        ⟨x.1, x.2, false⟩ } := by
  unfold releasePending
  cases hpending : s.cached.pending.buffer with
  | none => exact ⟨s.cached, by simp [assigned]⟩
  | some assignment =>
    cases assignment with
    | removed => exact ⟨s.cached, by simp [assigned]⟩
    | newBuffer buffer attachment =>
      refine ⟨{ s.cached with pending := { s.cached.pending with buffer := none } }, ?_⟩
      grind [holds, displays, release_eq, assigned]

/-- The displayed buffer goes first, when the current one may be the same. -/
theorem destroy_eq (s : BufferedSurface B R) : ∃ cached : CachedState (SurfaceAttributes B R), s.destroy = { s with
    cached := cached
    buffer := none
    bufferSize := none
    destroyed := true
    releases := s.releases
      ++ ((s.buffer.toList.filter fun x => s.alive x.1).map fun x => ⟨x.1, x.2, holds { s with buffer := none } x.1⟩)
      ++ (((assigned s.cached.current.buffer ++ assigned s.cached.pending.buffer).filter fun x => s.alive x.1).map
        fun x => ⟨x.1, x.2, false⟩) } := by
  obtain ⟨cached, hpending, -, hnone, heq⟩ := releaseCurrent_eq s.reset
  have hbuffer : s.reset.buffer = none := by
    rw [reset, releaseBuffer_eq]
  obtain ⟨cached', heq'⟩ := releasePending_eq s.reset.releaseCurrent (heq ▸ hbuffer) (heq ▸ hnone)
  refine ⟨cached', ?_⟩
  grind [destroy, reset, releaseBuffer_eq, displays]

/-- No buffer on display is released, by a merge that takes up the same buffer and puts another in its place or by the
end of a surface that has taken up the same buffer, and a surface does not end with a live buffer in its cache, unless
the same buffer is attached again. -/
def Sparing (s : BufferedSurface B R) : Event B → Prop
  | .commit false => List.IsChain (Stays s.OnDisplay) (s.cached.current.buffer
      :: (s.cached.cache.map (fun queued => queued.state.buffer) ++ [s.cached.pending.buffer])).reduceOption
  | .apply commit => List.IsChain (Stays s.OnDisplay) (s.cached.current.buffer
      :: (s.cached.cache.takeWhile fun queued => queued.id ≤ commit).map fun queued => queued.state.buffer).reduceOption
  | .destroy => (∀ x ∈ assigned s.cached.current.buffer, ¬s.OnDisplay x.1)
      ∧ ∀ queued ∈ s.cached.cache, ∀ x ∈ assigned queued.state.buffer, s.alive x.1 = true →
        ∃ again, s.cached.pending.buffer = some (.newBuffer x.1 again)
  | _ => True

/-- Nothing was sent for a buffer in use, nothing twice for one attachment, and in the end something for every buffer
that was committed and that the client still has. -/
structure Settled (s : BufferedSurface B R) : Prop where
  unused : s.Unused
  once : (s.releases.map Release.attachment).Nodup
  ended : s.destroyed = true → ∀ x ∈ s.committed, s.alive x.1 = true →
    ∃ sent ∈ s.releases, sent.buffer = x.1 ∧ x.2 ≤ sent.attachment

structure Good (wireBufferSize : B → Option (Int × Int)) (s : BufferedSurface B R) : Prop where
  settled : s.Settled
  sound : s.destroyed = false → s.Sound wireBufferSize

omit [DecidableEq B] in
theorem map_attachment (s : BufferedSurface B R) : s.releases.map Release.attachment = s.sent.map Prod.snd := by
  rw [sent, map_map]
  rfl

omit [DecidableEq B] in
theorem Sound.settled (h : s.Sound wireBufferSize) (hlive : s.destroyed = false) (hunused : s.Unused) : s.Settled :=
  ⟨hunused, map_attachment s ▸ h.once, fun hdestroyed => by cases hlive.symm.trans hdestroyed⟩

omit [DecidableEq B] in
theorem initial_good : (initial : BufferedSurface B R).Good wireBufferSize := by
  have hsound : (initial : BufferedSurface B R).Sound wireBufferSize :=
    ⟨fun _ hx => absurd hx not_mem_nil, rfl, rfl, fun _ hx => absurd hx not_mem_nil, List.Pairwise.nil,
      fun _ hx => absurd hx not_mem_nil, fun _ hx => absurd hx not_mem_nil, nodup_nil,
      fun _ hx => absurd hx not_mem_nil, fun _ hx => absurd hx not_mem_nil,
      fun _ hx => absurd hx not_mem_nil, fun _ heq => by cases heq⟩
  exact ⟨hsound.settled rfl fun _ hx => absurd hx not_mem_nil, fun _ => hsound⟩

theorem bufferDestroyed_good (h : s.Good wireBufferSize) (buffer : B) :
    Good wireBufferSize { s with alive := fun other => s.alive other && other ≠ buffer } := by
  have halive : ∀ other, (s.alive other && other ≠ buffer) = true → s.alive other = true := fun other hother =>
    (Bool.and_eq_true_iff.mp hother).1
  refine ⟨⟨h.settled.unused, h.settled.once, fun hdestroyed x hx hxalive => ?_⟩, fun hlive => ?_⟩
  · grind -linarith [h.settled.ended]
  · have hsound := h.sound hlive
    exact ⟨hsound.ids, hsound.pending, hsound.current, hsound.queue, hsound.sorted, hsound.fresh, hsound.spent,
      hsound.once, hsound.before, hsound.known, fun x hx hxalive => hsound.covered x hx (halive _ hxalive), hsound.sized⟩

theorem settled_destroy (h : s.Sound wireBufferSize) (hunused : s.Unused) :
    s.destroy.Settled ↔ s.Sparing (.destroy) := by
  set leaving := s.buffer.toList ++ (assigned s.cached.current.buffer ++ assigned s.cached.pending.buffer) with hleaving
  set queued := s.cached.cache.flatMap fun queued => assigned queued.state.buffer with hqueued
  have htrail : s.trail = s.buffer.toList ++ (assigned s.cached.current.buffer ++ (queued ++ assigned s.cached.pending.buffer)) := by
    rw [trail, held, append_assoc, append_assoc]
  have hsorted := h.sorted
  rw [htrail] at hsorted
  obtain ⟨cached, heq⟩ := destroy_eq s
  have hsent : s.destroy.sent = s.sent ++ leaving.filter fun x => s.alive x.1 := by
    rw [sent, heq]
    rw [map_append, map_append, map_named, map_named, hleaving, filter_append s.buffer.toList, append_assoc]
    rfl
  have hmem : ∀ x ∈ leaving, s.alive x.1 = true → ∃ release ∈ s.destroy.releases, release.buffer = x.1
      ∧ x.2 ≤ release.attachment := by
    intro x hx halive
    have hin : x ∈ s.destroy.sent := hsent ▸ mem_append_right _ (mem_filter.mpr ⟨hx, halive⟩)
    obtain ⟨release, hrelease, hbuffer, hattachment⟩ := mem_sent.mp hin
    exact ⟨release, hrelease, hbuffer, hattachment.ge⟩
  constructor
  · intro hsettled
    refine ⟨fun x hx hdisplay => ?_, fun q hq x hx halive => ?_⟩
    · obtain ⟨halive, hdisplays⟩ := hdisplay
      obtain ⟨n, hshown⟩ := displays_iff.mp hdisplays
      have hunused' := hsettled.unused ⟨x.1, n, holds { s with buffer := none } x.1⟩ (by
        grind -linarith)
      grind -linarith [holds]
    · have hcommitted : x ∈ s.destroy.committed := by
        rw [heq]
        exact h.known q hq x hx
      have halive' : s.destroy.alive x.1 = true := by
        rw [heq]
        exact halive
      obtain ⟨release, hrelease, hbuffer, hle⟩ := hsettled.ended (by rw [heq]) x hcommitted halive'
      have hin : (release.buffer, release.attachment) ∈ s.destroy.sent := mem_map_of_mem hrelease
      have hxq : x ∈ queued := mem_flatMap.mpr ⟨q, hq, hx⟩
      rw [hsent] at hin
      -- what was sent before and what came before the cache is older
      obtain hin | hin := mem_append.mp hin
      · exact absurd hle (Nat.not_le_of_lt (h.before _ hin x (mem_append_left _ hxq)))
      · obtain hin | hin := mem_append.mp (mem_of_mem_filter hin)
        · grind -linarith
        · obtain hin | hin := mem_append.mp hin
          · grind -linarith
          · refine ⟨release.attachment, ?_⟩
            rw [← hbuffer]
            exact eq_of_mem_assigned hin
  · rintro ⟨hcurrent, hcache⟩
    refine ⟨?_, ?_, fun _ x hx halive => ?_⟩
    · rw [heq]
      refine unused_append hunused (fun sent hin => ?_) (append_assoc ..)
      obtain hin | hin := mem_append.mp hin
      · obtain ⟨x, hx, rfl⟩ := mem_map.mp hin
        obtain ⟨hshown, halive⟩ := mem_filter.mp hx
        change (assigned s.cached.current.buffer).any (fun held => held.1 = x.1) = false
        rw [any_eq_false]
        intro y hy hname
        have hname : y.1 = x.1 := of_decide_eq_true hname
        refine hcurrent y hy ⟨hname ▸ halive, displays_iff.mpr ⟨x.2, ?_⟩⟩
        grind -linarith
      grind -linarith
    · rw [map_attachment]
      refine nodup_sent ?_ h.sorted h.spent h.once hsent
      rw [htrail]
      exact (((sublist_append_right _ _).append_left _).append_left _).subperm
    · rw [heq] at hx halive
      obtain ⟨y, hy, hname, hle⟩ | ⟨release, hrelease, hbuffer, hle⟩ := h.covered x hx halive
      · have halive' : s.alive y.1 = true := hname ▸ halive
        have hcover : ∃ z ∈ leaving, z.1 = y.1 ∧ y.2 ≤ z.2 := by
          obtain hy | hy := mem_append.mp hy
          · grind -linarith
          · obtain hy | hy := mem_append.mp hy
            · grind -linarith
            · obtain ⟨q, hq, hyq⟩ := mem_flatMap.mp hy
              obtain ⟨again, hagain⟩ := hcache q hq y hyq halive'
              have hlast : (y.1, again) ∈ assigned s.cached.pending.buffer := by
                rw [hagain]
                exact mem_singleton_self _
              have hlt := (pairwise_append.mp (pairwise_append.mp (pairwise_append.mp hsorted).2.1).2.1).2.2
                y hy _ hlast
              exact ⟨_, mem_append_right _ (mem_append_right _ hlast), rfl, hlt.le⟩
        obtain ⟨z, hz, hname', hle'⟩ := hcover
        obtain ⟨release, hrelease, hbuffer, hle''⟩ := hmem z hz (hname' ▸ halive')
        grind -linarith
      grind -linarith

theorem release_destroyed (s : BufferedSurface B R) : (sendReleased s).destroyed = s.destroyed := by
  rw [sendReleased_eq]

theorem update_destroyed (s : BufferedSurface B R) : (s.update wireBufferSize).destroyed = s.destroyed := by
  unfold BufferedSurface.update
  split
  · split
    · rw [release_eq, reset, releaseBuffer_eq]
      rfl
    · rw [replaceBuffer]
      split_ifs
      · rfl
      · rw [releaseBuffer_eq]
        rfl
  · rw [reset, releaseBuffer_eq]
    rfl
  · rfl

omit [DecidableEq B] in
theorem merged_good (hsound : s'.Sound wireBufferSize) (hlive : s'.destroyed = false) {P : Prop}
    (hunused : s'.Unused ↔ P) : (P → s'.Good wireBufferSize) ∧ (s'.Settled ↔ P) := by
  refine ⟨fun hp => ⟨hsound.settled hlive (hunused.mpr hp), fun _ => hsound⟩, fun hsettled => hunused.mp hsettled.unused,
    fun hp => hsound.settled hlive (hunused.mpr hp)⟩

theorem step_good (h : s.Good wireBufferSize) {e : Event B} (hstep : s.step wireBufferSize e = some s') :
    (s.Sparing e → s'.Good wireBufferSize) ∧ (s'.Settled ↔ s.Sparing e) := by
  cases e with
  | bufferDestroyed buffer =>
    cases hstep
    have hgood := bufferDestroyed_good h buffer
    exact ⟨fun _ => hgood, fun _ => trivial, fun _ => hgood.settled⟩
  | attach buffer =>
    rw [step] at hstep
    split_ifs at hstep with hrefused
    cases hstep
    have hlive : s.destroyed = false := Bool.eq_false_iff.mpr fun hd => hrefused (.inl hd)
    exact merged_good ((h.sound hlive).attach buffer) hlive ⟨fun _ => trivial, fun _ => h.settled.unused⟩
  | commit held =>
    rw [step] at hstep
    split_ifs at hstep with hdestroyed
    cases hstep
    have hlive : s.destroyed = false := Bool.eq_false_iff.mpr hdestroyed
    have hsound := h.sound hlive
    have hcommitted : (s.commit held).destroyed = false := (release_destroyed _).trans hlive
    refine merged_good (hsound.commit held) hcommitted ?_
    cases held with
    | true =>
      have hcurrent : (s.cached.commit (some s.currentCommit) 0).current
          = CachedState.mergeAll (([] : List (Queued (SurfaceAttributes B R))).map Queued.state) s.cached.current := by
        rfl
      have hnone : List.IsChain (Stays s.OnDisplay) ([s.cached.current.buffer]).reduceOption := by
        cases s.cached.current.buffer with
        | none => exact .nil
        | some x => exact .singleton x
      exact ⟨fun _ => trivial, fun _ => (unused_merge hsound h.settled.unused (fun _ hq => absurd hq not_mem_nil)
        hcurrent).mpr hnone⟩
    | false =>
      have hcurrent : (s.cached.commit none 0).current
          = CachedState.mergeAll (s.shelve.cached.cache.map Queued.state) s.cached.current := by
        rw [(s.cached.commit_none 0).2.2, shelve, map_append]
        rfl
      have hchain : (s.commit false).Unused ↔ List.IsChain (Stays s.OnDisplay)
          (s.cached.current.buffer :: s.shelve.cached.cache.map fun queued => queued.state.buffer).reduceOption :=
        unused_merge hsound h.settled.unused hsound.shelve.queue hcurrent
      rw [shelve, map_append] at hchain
      exact hchain
  | skip =>
    rw [step] at hstep
    split_ifs at hstep with hdestroyed
    cases hstep
    have hlive : s.destroyed = false := Bool.eq_false_iff.mpr hdestroyed
    have hsound := h.sound hlive
    exact merged_good (hsound.renumber fun q hq => Nat.lt_succ_of_lt (hsound.ids q hq)) hlive
      ⟨fun _ => trivial, fun _ => h.settled.unused⟩
  | apply commit =>
    rw [step] at hstep
    split_ifs at hstep with hdestroyed
    cases hstep
    have hlive : s.destroyed = false := Bool.eq_false_iff.mpr hdestroyed
    have hsound := h.sound hlive
    refine merged_good (hsound.apply commit) ((release_destroyed _).trans hlive) ?_
    exact unused_merge hsound h.settled.unused
      (fun q hq => hsound.queue q (takeWhile_sublist _ |>.subset hq))
      (CachedState.applyLoop_eq commit s.cached.cache s.cached).2.2
  | update =>
    rw [step] at hstep
    split_ifs at hstep with hdestroyed
    cases hstep
    have hlive : s.destroyed = false := Bool.eq_false_iff.mpr hdestroyed
    have hsound := h.sound hlive
    exact merged_good hsound.update ((update_destroyed s).trans hlive)
      ⟨fun _ => trivial, fun _ => unused_update hsound h.settled.unused⟩
  | destroy =>
    rw [step] at hstep
    split_ifs at hstep with hdestroyed
    cases hstep
    have hlive : s.destroyed = false := Bool.eq_false_iff.mpr hdestroyed
    have hsettled := settled_destroy (h.sound hlive) h.settled.unused
    refine ⟨fun hsparing => ⟨hsettled.mpr hsparing, fun hnot => ?_⟩, hsettled⟩
    cases hnot

def Step (wireBufferSize : B → Option (Int × Int)) (s : BufferedSurface B R) (e : Event B) (s' : BufferedSurface B R) :
    Prop :=
  s.Sparing e ∧ s.step wireBufferSize e = some s'

end BufferedSurface

end TensorDE.Wm.Compositor
