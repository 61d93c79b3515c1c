import TensorDE.EventLayer.Fifo

namespace TensorDE.EventLayer

open TensorDE.RingBuffers List

variable {ring : PhaseRing} {xs : List Stamped} {x : Stamped}

namespace PhaseRing

theorem coalesceAt_eq (h : ring.Holds xs) (event : Stamped) {offset : Nat} (hoffset : offset < xs.length) :
    coalesceAt ring event ((ring.head + ring.len - 1 - offset) % ring.capacity)
      = if (xs[xs.length - 1 - offset]).event.coalescesWith event.event then
          some (xs[xs.length - 1 - offset], ring.setSlot (ring.slot (xs.length - 1 - offset)) event) else none := by
  have hslot : (ring.head + ring.len - 1 - offset) % ring.capacity = ring.slot (xs.length - 1 - offset) := by
    rw [RingBuffer.slot, h.len]
    congr 1
    omega
  rw [hslot, coalesceAt, h.getSlot (by omega)]

theorem tryCoalesce_cases (h : ring.Holds xs) (event : Stamped) :
    (tryCoalesce ring event = none ∧ ∀ x ∈ xs, x.event.coalescesWith event.event = false)
    ∨ ∃ before old after ring', xs = before ++ old :: after ∧ tryCoalesce ring event = some (old, ring')
      ∧ old.event.coalescesWith event.event = true ∧ ring'.Holds (before ++ event :: after)
      ∧ ring'.capacity = ring.capacity := by
  by_cases hempty : ring.len = 0
  · have hnil : xs = [] := length_eq_zero_iff.mp (h.len.symm.trans hempty)
    grind [tryCoalesce]
  · cases hscan : tryCoalesce ring event with
    | none =>
      refine .inl ⟨rfl, fun x hx => ?_⟩
      rw [tryCoalesce, if_neg hempty, findSome?_eq_none_iff] at hscan
      obtain ⟨i, hi, rfl⟩ := mem_iff_getElem.mp hx
      have hoffset : xs.length - 1 - i < xs.length := by omega
      have hprobe := hscan (xs.length - 1 - i) (mem_range.mpr (h.len ▸ hoffset))
      rw [coalesceAt_eq h event hoffset] at hprobe
      grind
    | some found =>
      right
      rw [tryCoalesce, if_neg hempty] at hscan
      obtain ⟨offset, hmem, hprobe⟩ := exists_of_findSome?_eq_some hscan
      have hoffset : offset < xs.length := h.len ▸ mem_range.mp hmem
      rw [coalesceAt_eq h event hoffset] at hprobe
      split_ifs at hprobe with hcoalesces
      cases hprobe
      refine ⟨xs.take (xs.length - 1 - offset), _, xs.drop (xs.length - 1 - offset + 1), _, ?_, rfl, hcoalesces, ?_,
        RingBuffer.capacity_setSlot ..⟩
      · rw [getElem_cons_drop, take_append_drop]
      · have hset := set_eq_take_append_cons_drop (l := xs) (i := xs.length - 1 - offset) (a := event)
        grind [h.setSlot]

theorem popFront_nil (h : ring.Holds []) : popFront ring = (none, ring) := if_pos h.len

theorem popFront_cons (h : ring.Holds (x :: xs)) :
    popFront ring = (some x, ring.takeFront.2) ∧ ring.takeFront.2.Holds xs := by
  grind +splitImp +splitIndPred [h.takeFront, popFront]

end PhaseRing

namespace EventQueue

structure Sound (capacity : Nat) (q : EventQueue) : Prop where
  holds : ∀ phase, (q.phases phase).Holds (q.phases phase).contents
  room : ∀ phase, (q.phases phase).capacity = capacity

variable {q : EventQueue} {capacity : Nat} {phase : Phase}

@[simp] theorem phases_setRing_self (q : EventQueue) (phase : Phase) (ring : PhaseRing) :
    (q.setRing phase ring).phases phase = ring := Function.update_self ..

@[simp] theorem phases_setRing_of_ne (q : EventQueue) {phase other : Phase} (ring : PhaseRing) (h : other ≠ phase) :
    (q.setRing phase ring).phases other = q.phases other := Function.update_of_ne h ..

theorem setRing_same (q : EventQueue) (phase : Phase) : q.setRing phase (q.phases phase) = q := by
  rw [setRing, Function.update_eq_self]

theorem sound_withPhaseCapacity (capacity : Nat) : (withPhaseCapacity capacity).Sound (max capacity 1) := by
  have hnil := RingBuffer.Holds.withCapacity (α := Stamped) capacity
  refine ⟨fun phase => ?_, fun phase => RingBuffer.capacity_withCapacity capacity⟩
  exact hnil.contents_eq.symm ▸ hnil

section

variable (h : q.Sound capacity)
include h

theorem Sound.setRing {stats : QueueStats} (hholds : ring.Holds xs)
    (hroom : ring.capacity = capacity) : Sound capacity { q.setRing phase ring with stats := stats } := by
  constructor <;> intro other <;> by_cases hother : other = phase
  · grind [phases_setRing_self, hholds.contents_eq]
  · grind [phases_setRing_of_ne, h.holds]
  · simp_all
  grind [phases_setRing_of_ne, h.room]

theorem Sound.front (hfront : PhaseRing.popFront (q.phases phase) = (some x, ring)) :
    ∃ rest, (q.phases phase).contents = x :: rest ∧ ring.Holds rest ∧ ring.capacity = capacity := by
  have hholds := h.holds phase
  cases hline : (q.phases phase).contents with
  | nil => grind [PhaseRing.popFront_nil]
  | cons front rest =>
    rw [hline] at hholds
    obtain ⟨hpop, hring⟩ := PhaseRing.popFront_cons hholds
    grind [RingBuffer.capacity_takeFront, h.room]

theorem Sound.taken (hfront : PhaseRing.popFront (q.phases phase) = (some x, ring)) :
    (q.taken phase ring).Sound capacity := by
  obtain ⟨rest, -, hring, hroom⟩ := h.front hfront
  exact h.setRing hring hroom

end

theorem contents_setRing (q : EventQueue) (hholds : ring.Holds xs) :
    (fun other => ((q.setRing phase ring).phases other).contents)
      = Function.update (fun other => (q.phases other).contents) phase xs := by
  grind [phases_setRing_self, hholds.contents_eq, phases_setRing_of_ne]

end EventQueue

namespace Session

variable {s : Session} {capacity : Nat}

def fifo (s : Session) : Fifo := ⟨fun phase => (s.queue.phases phase).contents, s.pushes, s.delivered⟩

/-- The rings are sound and the counters count, as far as 64 bits go. -/
structure Sound (capacity : Nat) (s : Session) : Prop where
  queue : s.queue.Sound capacity
  pushed : s.queue.stats.pushed = min (s.pushes.countP fun push => push.result = .queued) (2 ^ 64 - 1)
  drained : s.queue.stats.drained = min s.delivered.length (2 ^ 64 - 1)

theorem start_sound (capacity : Nat) : (start capacity).Sound (max capacity 1) :=
  ⟨EventQueue.sound_withPhaseCapacity capacity, rfl, rfl⟩

theorem start_fifo (capacity : Nat) : (start capacity).fifo = Fifo.start := by
  have hnil := RingBuffer.Holds.withCapacity (α := Stamped) capacity
  have hqueued : (fun _ : Phase => (RingBuffer.withCapacity capacity : PhaseRing).contents) = fun _ => [] := by
    funext phase
    exact hnil.contents_eq
  exact congrArg (fun queued => (⟨queued, [], []⟩ : Fifo)) hqueued

theorem saturatingAdd_min (n : Nat) : saturatingAdd (min n (2 ^ 64 - 1)) 1 = min (n + 1) (2 ^ 64 - 1) := by
  rw [saturatingAdd]
  omega

theorem push_refines (h : s.Sound capacity) (event : Event) :
    (s.push event).Sound capacity ∧ Fifo.Step capacity s.fifo (s.push event).fifo := by
  let stamped : Stamped := ⟨event, s.pushes.length⟩
  have hholds := h.queue.holds event.phase
  have hcount : ∀ push : Push, (s.pushes ++ [push]).countP (fun push => push.result = .queued)
      = (s.pushes.countP fun push => push.result = .queued) + if push.result = .queued then 1 else 0 := by
    simp
  obtain ⟨hnone, halone⟩ | ⟨before, old, after, ring, hline, hsome, hpartner, hring, hroom⟩ :=
    PhaseRing.tryCoalesce_cases hholds stamped
  · by_cases hfull : PhaseRing.isFull (s.queue.phases event.phase) = true
    · have hpush : s.push event = ⟨{ s.queue with
          stats := { s.queue.stats with dropped := saturatingAdd s.queue.stats.dropped 1 } },
          s.pushes ++ [⟨event, .dropped, none⟩], s.delivered⟩ := by
        rw [push, EventQueue.push]
        rw [hnone, PhaseRing.pushBack, if_pos hfull]
        dsimp only
        rw [EventQueue.setRing_same]
        rfl
      rw [hpush]
      refine ⟨⟨⟨h.queue.holds, h.queue.room⟩, ?_, h.drained⟩, ?_⟩
      · rw [hcount]
        exact h.pushed
      · have hlength : (s.fifo.queued event.phase).length = capacity := by
          rw [← h.queue.room event.phase]
          exact hholds.len.symm.trans (of_decide_eq_true hfull)
        exact .drop halone hlength
    · have hroom : (s.queue.phases event.phase).contents.length < (s.queue.phases event.phase).capacity := by
        refine Nat.lt_of_le_of_ne hholds.fits fun heq => hfull ?_
        exact decide_eq_true (hholds.len.trans heq)
      have hring := hholds.append hroom stamped
      have hpush : s.push event = ⟨{ s.queue.setRing event.phase ((s.queue.phases event.phase).append stamped) with
          stats := { s.queue.stats with pushed := saturatingAdd s.queue.stats.pushed 1 } },
          s.pushes ++ [⟨event, .queued, none⟩], s.delivered⟩ := by
        rw [push, EventQueue.push]
        rw [hnone, PhaseRing.pushBack, if_neg hfull]
        rfl
      rw [hpush]
      refine ⟨⟨h.queue.setRing hring ((RingBuffer.capacity_append ..).trans (h.queue.room _)), ?_, h.drained⟩, ?_⟩
      · grind [saturatingAdd, h.pushed]
      · have hfifo : (⟨_, _, _⟩ : Fifo) = s.fifo.enqueue event :=
          congrArg (fun queued => (⟨queued, s.pushes ++ [⟨event, .queued, none⟩], s.delivered⟩ : Fifo))
            (EventQueue.contents_setRing s.queue hring)
        exact (congrArg (Fifo.Step capacity s.fifo) hfifo).mpr
          (.enqueue halone (h.queue.room event.phase ▸ hroom))
  · have hpush : s.push event = ⟨{ s.queue.setRing event.phase ring with
        stats := { s.queue.stats with
          coalesced := saturatingAdd s.queue.stats.coalesced 1
          coalesce := s.queue.stats.coalesce.record old.event } },
        s.pushes ++ [⟨event, .coalesced, some old.serial⟩], s.delivered⟩ := by
      rw [push, EventQueue.push]
      rw [hsome]
      rfl
    rw [hpush]
    refine ⟨⟨h.queue.setRing hring (hroom.trans (h.queue.room _)), ?_, h.drained⟩, ?_⟩
    · rw [hcount]
      exact h.pushed
    · have hfifo : (⟨_, _, _⟩ : Fifo) = s.fifo.replace event before old after :=
        congrArg (fun queued => (⟨queued, s.pushes ++ [⟨event, .coalesced, some old.serial⟩], s.delivered⟩ : Fifo))
          (EventQueue.contents_setRing s.queue hring)
      exact (congrArg (Fifo.Step capacity s.fifo) hfifo).mpr (.replace hline hpartner)

inductive Taken : EventQueue → List Stamped → EventQueue → Prop where
  | nil (q : EventQueue) : Taken q [] q
  | cons {q next : EventQueue} {phase : Phase} {x : Stamped} {rest : List Stamped} {ring : PhaseRing}
    (front : PhaseRing.popFront (q.phases phase) = (some x, ring)) (others : Taken (q.taken phase ring) rest next) :
    Taken q (x :: rest) next

theorem take_refines (h : s.Sound capacity) {phase : Phase}
    (hfront : PhaseRing.popFront (s.queue.phases phase) = (some x, ring)) :
    (s.deliver [x] (s.queue.taken phase ring)).Sound capacity
      ∧ Fifo.Step capacity s.fifo (s.deliver [x] (s.queue.taken phase ring)).fifo := by
  obtain ⟨rest, hline, hring, -⟩ := h.queue.front hfront
  refine ⟨⟨h.queue.taken hfront, h.pushed, ?_⟩, ?_⟩
  · change saturatingAdd s.queue.stats.drained 1 = min (s.delivered ++ [_]).length _
    rw [h.drained, saturatingAdd_min, length_append, length_singleton]
  · have hfifo : (⟨_, _, _⟩ : Fifo) = s.fifo.deliver phase x rest :=
      congrArg (fun queued => (⟨queued, s.pushes, s.delivered ++ [⟨x, s.pushes.length⟩]⟩ : Fifo))
        (EventQueue.contents_setRing s.queue hring)
    exact (congrArg (Fifo.Step capacity s.fifo) hfifo).mpr (.deliver hline)

theorem taken_refines {q : EventQueue} (h : s.Sound capacity) (htaken : Taken s.queue xs q) :
    (s.deliver xs q).Sound capacity ∧ Relation.ReflTransGen (Fifo.Step capacity) s.fifo (s.deliver xs q).fifo := by
  induction xs generalizing s with
  | nil =>
    cases htaken
    have hsame : s.deliver [] s.queue = s := by
      rw [deliver, map_nil, append_nil]
    rw [hsame]
    exact ⟨h, .refl⟩
  | cons x xs ih =>
    cases htaken with
    | @cons _ _ phase _ _ ring hfront hothers =>
      obtain ⟨hsound, hstep⟩ := take_refines h hfront
      obtain ⟨hsound', hsteps⟩ := ih hsound hothers
      have hsplit : s.deliver (x :: xs) q = (s.deliver [x] (s.queue.taken phase ring)).deliver xs q := by
        rw [deliver, deliver, deliver, append_assoc]
        rfl
      rw [hsplit]
      exact ⟨hsound', .head hstep hsteps⟩

end Session

namespace EventQueue

variable {q : EventQueue} {capacity : Nat}

section

variable (h : q.Sound capacity)
include h

/-- A pop takes the front of the first phase that is not empty. -/
theorem popFrom_cases (phases : List Phase) :
    (q.popFrom phases = (none, q) ∧ ∀ phase ∈ phases, (q.phases phase).contents = [])
    ∨ ∃ earlier phase later x ring, phases = earlier ++ phase :: later
      ∧ (∀ other ∈ earlier, (q.phases other).contents = [])
      ∧ PhaseRing.popFront (q.phases phase) = (some x, ring) ∧ q.popFrom phases = (some x, q.taken phase ring) := by
  induction phases with
  | nil => exact .inl ⟨rfl, fun _ hphase => absurd hphase not_mem_nil⟩
  | cons phase phases ih =>
    have hholds := h.holds phase
    cases hline : (q.phases phase).contents with
    | nil => grind -linarith [PhaseRing.popFront_nil, popFrom, setRing_same]
    | cons front rest =>
      rw [hline] at hholds
      obtain ⟨hpop, -⟩ := PhaseRing.popFront_cons hholds
      refine .inr ⟨[], phase, phases, front, _, rfl, fun _ hother => absurd hother not_mem_nil, hpop, ?_⟩
      rw [popFrom, hpop]

theorem pop_taken : Session.Taken q q.pop.1.toList q.pop.2 := by
  obtain ⟨hnone, -⟩ | ⟨earlier, phase, later, x, ring, -, -, hfront, hpop⟩ := popFrom_cases h phaseOrder
  · rw [pop, hnone]
    exact .nil q
  · rw [pop, hpop]
    exact .cons hfront (.nil _)

theorem drain_taken (max : Nat) : Session.Taken q (q.drain max).1 (q.drain max).2 := by
  induction max generalizing q with
  | zero => exact .nil q
  | succ max ih =>
    obtain ⟨hnone, -⟩ | ⟨earlier, phase, later, x, ring, -, -, hfront, hpop⟩ := popFrom_cases h phaseOrder
    · rw [drain, pop, hnone]
      exact .nil q
    · rw [drain, pop, hpop]
      exact .cons hfront (ih (h.taken hfront))

theorem drainPhase_taken (phase : Phase) (max : Nat) :
    Session.Taken q (q.drainPhase phase max).1 (q.drainPhase phase max).2 := by
  induction max generalizing q with
  | zero => exact .nil q
  | succ max ih =>
    have hholds := h.holds phase
    cases hline : (q.phases phase).contents with
    | nil =>
      rw [hline] at hholds
      rw [drainPhase, PhaseRing.popFront_nil hholds]
      dsimp only
      rw [setRing_same]
      exact .nil q
    | cons front rest =>
      rw [hline] at hholds
      obtain ⟨hpop, -⟩ := PhaseRing.popFront_cons hholds
      rw [drainPhase, hpop]
      exact .cons hpop (ih (h.taken hpop))

end

end EventQueue

namespace Session

variable {s : Session} {capacity : Nat}

theorem step_refines (h : s.Sound capacity) (op : Op) :
    (s.step op).Sound capacity ∧ Relation.ReflTransGen (Fifo.Step capacity) s.fifo (s.step op).fifo := by
  cases op with
  | push event =>
    obtain ⟨hsound, hstep⟩ := push_refines h event
    exact ⟨hsound, .single hstep⟩
  | pop => exact taken_refines h (EventQueue.pop_taken h.queue)
  | drain max => exact taken_refines h (EventQueue.drain_taken h.queue max)
  | drainPhase phase max => exact taken_refines h (EventQueue.drainPhase_taken h.queue phase max)

theorem run_refines (capacity : Nat) (ops : List Op) : (run capacity ops).Sound (max capacity 1)
    ∧ Relation.ReflTransGen (Fifo.Step (max capacity 1)) Fifo.start (run capacity ops).fifo := by
  induction ops using List.reverseRecOn with
  | nil => grind [run, start_fifo, start_sound]
  | append_singleton ops op ih => grind [step_refines, run, ih.2.trans]

end Session

namespace Fifo

variable {f : Fifo} {capacity : Nat}

structure Good (capacity : Nat) (f : Fifo) : Prop where
  lined : f.Lined capacity
  kept : f.Kept
  moving : f.Moving
  counted : f.Counted

theorem good_of_steps (h : Relation.ReflTransGen (Step capacity) start f) : f.Good capacity := by
  induction h with
  | refl => exact ⟨Lined.start capacity, Kept.start, Moving.start, rfl⟩
  | tail _ hstep ih =>
    exact ⟨ih.lined.step hstep, ih.kept.step ih.lined hstep, ih.moving.step ih.kept ih.lined hstep,
      ih.counted.step hstep⟩

end Fifo

namespace Session

variable {s : Session}

theorem first_unique (queued : Phase → List Stamped) {earlier later earlier' later' : List Phase} {phase phase' : Phase}
    (heq : earlier ++ phase :: later = earlier' ++ phase' :: later') (hempty : ∀ other ∈ earlier, queued other = [])
    (hempty' : ∀ other ∈ earlier', queued other = []) (hline : queued phase ≠ []) (hline' : queued phase' ≠ []) :
    phase = phase' := by
  have hfind : ∀ {earlier later : List Phase} {phase : Phase}, (∀ other ∈ earlier, queued other = []) →
      queued phase ≠ [] → (earlier ++ phase :: later).find? (fun phase => queued phase ≠ []) = some phase := by
    intro earlier later phase hempty hline
    rw [find?_eq_some_iff_append]
    refine ⟨decide_eq_true hline, earlier, later, rfl, fun other hother => ?_⟩
    simp [hempty other hother]
  grind

theorem pop_iff {capacity : Nat} (h : s.Sound capacity) (x : Stamped) : s.queue.pop.1 = some x
    ↔ ∃ earlier phase later rest, phaseOrder = earlier ++ phase :: later
      ∧ (∀ other ∈ earlier, s.fifo.queued other = []) ∧ s.fifo.queued phase = x :: rest := by
  obtain ⟨hnone, hall⟩ | ⟨earlier, phase, later, front, ring, horder, hempty, hfront, hpop⟩ :=
    EventQueue.popFrom_cases h.queue phaseOrder
  · rw [EventQueue.pop, hnone]
    constructor
    · intro heq
      cases heq
    · rintro ⟨earlier, phase, later, rest, horder, -, hline⟩
      cases hline.symm.trans (hall phase (horder ▸ mem_append_right _ mem_cons_self))
  · obtain ⟨rest, hline, -⟩ := h.queue.front hfront
    rw [EventQueue.pop, hpop]
    constructor
    · intro heq
      cases heq
      exact ⟨earlier, phase, later, rest, horder, hempty, hline⟩
    · rintro ⟨earlier', phase', later', rest', horder', hempty', hline'⟩
      have hphase := first_unique s.fifo.queued (horder.symm.trans horder') hempty hempty'
        (fun heq => by cases hline.symm.trans heq) (fun heq => by cases hline'.symm.trans heq)
      subst hphase
      obtain ⟨rfl, -⟩ := List.cons.inj (hline.symm.trans hline')
      rfl

theorem phases_of_dropped {q : EventQueue} (event : Stamped) (h : (q.push event).1 = .dropped) :
    (q.push event).2.phases = q.phases := by
  grind [EventQueue.push, PhaseRing.pushBack, EventQueue.setRing_same]

/-- The event queue over every sequence of calls. -/
theorem event_queue_refines_fifo (capacity : Nat) (ops : List Op) :
    let s := run capacity ops
    Relation.ReflTransGen (Fifo.Step (max capacity 1)) Fifo.start s.fifo
    ∧ (∀ phase, (s.queue.phases phase).len = (s.fifo.queued phase).length
        ∧ (s.queue.phases phase).len ≤ (s.queue.phases phase).capacity
        ∧ (s.queue.phases phase).capacity = max capacity 1)
    ∧ (∀ x, s.queue.pop.1 = some x ↔ ∃ earlier phase later rest, phaseOrder = earlier ++ phase :: later
        ∧ (∀ other ∈ earlier, s.fifo.queued other = []) ∧ s.fifo.queued phase = x :: rest)
    ∧ s.fifo.Kept
    ∧ (s.pushes.countP fun push => push.result = .queued) = s.delivered.length + s.queue.len
    ∧ s.queue.stats.pushed = min (s.delivered.length + s.queue.len) (2 ^ 64 - 1)
    ∧ s.queue.stats.drained = min s.delivered.length (2 ^ 64 - 1)
    ∧ (∀ event : Event, (s.queue.push ⟨event, s.pushes.length⟩).1 = .dropped →
        (s.push event).queue.phases = s.queue.phases)
    ∧ ∀ before x after, s.delivered = before ++ x :: after → x.item.event.phase = .input →
        x.item.event.isMotion = false → Fifo.Led s.pushes (Fifo.lastDelivered before) x.item.serial := by
  intro s
  obtain ⟨hsound, hsteps⟩ := run_refines capacity ops
  have hgood := Fifo.good_of_steps hsteps
  have hlen : ∀ phase, (s.queue.phases phase).len = (s.fifo.queued phase).length :=
    fun phase => (hsound.queue.holds phase).len
  have htotal : s.queue.len = s.fifo.total := congrArg List.sum (map_congr_left fun phase _ => hlen phase)
  have hcounted : (s.pushes.countP fun push => push.result = .queued) = s.delivered.length + s.queue.len :=
    htotal ▸ hgood.counted
  refine ⟨hsteps, fun phase => ⟨hlen phase, ?_, hsound.queue.room phase⟩, pop_iff hsound, hgood.kept, hcounted, ?_,
    hsound.drained, fun event hdropped => phases_of_dropped _ hdropped, fun before x after heq hphase hmotion => ?_⟩
  · rw [hlen phase, hsound.queue.room phase]
    exact hgood.lined.fits phase
  · rw [← hcounted]
    exact hsound.pushed
  · exact hgood.moving.past before x after heq hphase (Fifo.still_eq_true_iff.mpr hmotion)

/-- A motion that is still queued when a button is pressed is overtaken by the next one. -/
theorem motion_crosses_button : ¬∀ (capacity : Nat) (ops : List Op) (before : List Delivery) (x : Delivery)
    (after : List Delivery), (run capacity ops).delivered = before ++ x :: after → x.item.event.phase = .input →
      x.item.event.isMotion = false → (Fifo.lastDelivered before).map (fun delivery => delivery.item.serial)
        = Fifo.lastMotion (run capacity ops).pushes x.item.serial := by
  intro h
  have hmotion := h 8 [.push (.input (.pointerMotion 1 2 1)), .push (.input (.pointerButton 272 true 2)),
    .push (.input (.pointerMotion 9 8 3)), .drain 8] [⟨⟨.input (.pointerMotion 9 8 3), 2⟩, 3⟩]
    ⟨⟨.input (.pointerButton 272 true 2), 1⟩, 3⟩ [] (by decide) rfl rfl
  exact absurd hmotion (by decide)

end Session

end TensorDE.EventLayer
