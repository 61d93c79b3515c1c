import TensorDE.Lib.Trace
import TensorDE.Wm.CommitScheduler

set_option linter.dupNamespace false

namespace TensorDE.Wm.SurfaceTiming

open TensorDE.Heaps TensorDE.Trace List

variable {S B : Type} [DecidableEq S]

inductive Event (S B : Type) where
  | register (deadline : Deadline) (barrier : SurfaceBarrier S B)
  | complete
  | removeSurface (surface : S)
  | fail

namespace CommitScheduler

variable (c : CommitScheduler S B)

def pending : List (SurfaceBarrier S B) := c.deadlines.entries.map TimedBarrier.barrier

/-- The timer runs to the deadline that the scheduler has noted, where the timer can be set to it. -/
def InStep : Prop := c.timer = (c.armed.bind Deadline.timespec).getD Timespec.zero

variable {c c' : CommitScheduler S B} {o : Outside S B}

omit [DecidableEq S] in
theorem armEarliest_ok (h : c.armEarliest o = .ok c') :
    c'.deadlines = c.deadlines ∧ c'.sequence = c.sequence ∧ c'.failed = c.failed
      ∧ (c.InStep → c'.armed = c'.earliest ∧ c'.InStep) := by
  grind [armEarliest, InStep, earliest]

end CommitScheduler

variable (c : CommitScheduler S B)

def Event.run (o : Outside S B) : Event S B → List (SurfaceBarrier S B) × CommitScheduler S B
  | .register deadline barrier => ((c.register o deadline barrier).1.released, (c.register o deadline barrier).2)
  | .complete => ((c.complete o).1.released, (c.complete o).2)
  | .removeSurface surface => c.removeSurface o surface
  | .fail => c.failOpen o

def Event.adds : Event S B → List (Deadline × SurfaceBarrier S B)
  | .register deadline barrier => [(deadline, barrier)]
  | _ => []

def Event.queues (o : Outside S B) : Event S B → List (TimedBarrier S B)
  | .register deadline barrier => if c.failed ∨ deadline ≤ o.now then [] else [⟨deadline, c.sequence, barrier⟩]
  | _ => []

/-- Why an event may hand a barrier back. -/
def Event.Grants (o : Outside S B) (b : SurfaceBarrier S B) : Event S B → Prop
  | .register deadline barrier => b = barrier ∧ deadline ≤ o.now
  | .complete => ∃ entry ∈ c.deadlines.entries, entry.barrier = b ∧ entry.deadline ≤ o.now
  | .removeSurface surface => b.surfaceId = surface
  | .fail => False

structure Outcome (c : CommitScheduler S B) (o : Outside S B) (e : Event S B) (released : List (SurfaceBarrier S B))
    (c' : CommitScheduler S B) : Prop where
  accounted : (released ++ c'.pending).Perm (c.pending ++ e.adds.map Prod.snd)
  entries : ∀ f ∈ c'.deadlines.entries, f ∈ c.deadlines.entries ∨ f ∈ e.queues c o
  sequence : c'.sequence = (c.sequence + (e.queues c o).length) % 2 ^ 64
  opened : c'.failed → (c.failed → c.deadlines.entries = []) → c'.deadlines.entries = []
  stays : c.failed → c'.failed
  armed : ¬ c'.failed → c.armed = c.earliest → c.InStep → c'.armed = c'.earliest ∧ c'.InStep
  granted : ∀ b ∈ released, c'.failed ∨ e.Grants c o b
  ordered : e = .complete → ¬ c'.failed → ∃ due : List (TimedBarrier S B),
    released = due.map TimedBarrier.barrier ∧ due.Pairwise (fun x y => x.order ≤ y.order)
      ∧ ∀ x ∈ due, x ∈ c.deadlines.entries
  waiting : e = .complete → ∀ f ∈ c'.deadlines.entries, (c.failed → c.deadlines.entries = []) → o.now < f.deadline
  left : ∀ surface, e = .removeSurface surface → ∀ f ∈ c'.deadlines.entries, f.barrier.surfaceId ≠ surface

section Outcomes

variable {c c' : CommitScheduler S B} {o : Outside S B}

omit [DecidableEq S] in
theorem failOpen_released (ho : ∀ xs, (o.arrange xs).Perm xs) (c : CommitScheduler S B) :
    ((c.failOpen o).1).Perm c.pending :=
  (ho c.deadlines.entries).map TimedBarrier.barrier

omit [DecidableEq S] in
theorem armOrOpen_cases (ho : ∀ xs, (o.arrange xs).Perm xs) (hc : ¬ c.failed) :
    (∃ c', c.armOrOpen o = (none, [], c') ∧ c'.deadlines = c.deadlines ∧ c'.sequence = c.sequence ∧ ¬ c'.failed
      ∧ (c.InStep → c'.armed = c'.earliest ∧ c'.InStep))
    ∨ ∃ error released c', c.armOrOpen o = (some error, released, c') ∧ released.Perm c.pending
      ∧ c'.deadlines.entries = [] ∧ c'.sequence = c.sequence ∧ c'.failed := by
  rw [CommitScheduler.armOrOpen]
  cases harm : c.armEarliest o with
  | ok c' => grind -linarith [CommitScheduler.armEarliest_ok]
  | error error => exact .inr ⟨error, _, _, rfl, (ho c.deadlines.entries).map _, rfl, rfl, rfl⟩

/-- A scheduler that opens hands back whatever has waited for it. -/
theorem Outcome.of_open {e : Event S B} {released : List (SurfaceBarrier S B)}
    (hperm : released.Perm (c.pending ++ e.adds.map Prod.snd)) (hd : c'.deadlines.entries = [])
    (hseq : c'.sequence = (c.sequence + (e.queues c o).length) % 2 ^ 64) (hbad : c'.failed) :
    Outcome c o e released c' where
  accounted := by
    rw [CommitScheduler.pending, hd, map_nil, append_nil]
    exact hperm
  entries := by simp [hd]
  sequence := hseq
  opened := fun _ _ => hd
  stays := fun _ => hbad
  armed := fun hf => absurd hbad hf
  granted := fun b _ => .inl hbad
  ordered := fun _ hf => absurd hbad hf
  waiting := by simp [hd]
  left := by simp [hd]

theorem register_outcome (ho : ∀ xs, (o.arrange xs).Perm xs) (hc : c.sequence < 2 ^ 64) (deadline : Deadline)
    (barrier : SurfaceBarrier S B) :
    Outcome c o (.register deadline barrier) ((Event.register deadline barrier).run c o).1
      ((Event.register deadline barrier).run c o).2 := by
  by_cases hnow : c.failed ∨ deadline ≤ o.now
  · have hrun : (Event.register deadline barrier).run c o = ([barrier], c) := by
      simp only [Event.run, CommitScheduler.register, if_pos hnow]
    have hqueue : (Event.register deadline barrier).queues c o = [] := if_pos hnow
    rw [hrun]
    refine ⟨?_, fun f hf => .inl hf, ?_, fun hfail hopen => hopen hfail, id, fun _ ha hs => ⟨ha, hs⟩, ?_, ?_, ?_, ?_⟩
    · exact perm_append_comm
    · grind
    · intro b hb
      rw [mem_singleton] at hb
      exact hnow.imp id fun hle => ⟨hb, hle⟩
    · simp
    · simp
    · simp
  · have hqueue : (Event.register deadline barrier).queues c o = [⟨deadline, c.sequence, barrier⟩] := if_neg hnow
    have hfailed : ¬ c.failed := fun hf => hnow (.inl hf)
    have hperm : ((c.deadlines.push ⟨deadline, c.sequence, barrier⟩).entries.map TimedBarrier.barrier).Perm
        (c.pending ++ [barrier]) :=
      (Heap.push_perm.map TimedBarrier.barrier).trans (perm_append_singleton barrier c.pending).symm
    simp only [Event.run, CommitScheduler.register, if_neg hnow]
    obtain ⟨c', hrun, hd, hseq, hgood, hstep⟩ | ⟨error, released, c', hrun, hrel, hd, hseq, hbad⟩ :=
      armOrOpen_cases (c := { c with
        sequence := (c.sequence + 1) % 2 ^ 64
        deadlines := c.deadlines.push ⟨deadline, c.sequence, barrier⟩ }) ho hfailed
    · rw [hrun]
      refine ⟨?_, ?_, ?_, fun hf => absurd hf hgood, fun hf => absurd hf hfailed, fun _ _ hs => hstep hs, ?_, ?_, ?_, ?_⟩
      · rw [CommitScheduler.pending, hd]
        exact hperm
      · grind [Heap.mem_push]
      · rw [hqueue, hseq]
        rfl
      · simp
      · simp
      · simp
      · simp
    · rw [hrun]
      exact Outcome.of_open (hrel.trans hperm) hd (by rw [hqueue, hseq]; rfl) hbad

omit [DecidableEq S] in
theorem deadline_le {x y : TimedBarrier S B} (h : x.order ≤ y.order) : x.deadline ≤ y.deadline := by
  obtain hlt | ⟨heq, -⟩ := Prod.Lex.toLex_le_toLex.mp h
  · exact hlt.le
  · exact heq.le

omit [DecidableEq S] in
theorem due_perm (c : CommitScheduler S B) (p : TimedBarrier S B → Bool) :
    ((c.deadlines.popWhile p).1.map TimedBarrier.barrier
      ++ (c.deadlines.popWhile p).2.entries.map TimedBarrier.barrier).Perm c.pending := by
  rw [← map_append, Heap.popWhile_append]
  exact List.Perm.refl _

section

variable (ho : ∀ xs, (o.arrange xs).Perm xs)
include ho

theorem complete_outcome (hc : c.sequence < 2 ^ 64) :
    Outcome c o .complete (Event.complete.run c o).1 (Event.complete.run c o).2 := by
  have hsame : c.sequence = (c.sequence + 0) % 2 ^ 64 := (Nat.mod_eq_of_lt hc).symm
  by_cases hf : c.failed
  · have hrun : Event.complete.run c o = ([], c) := by
      simp only [Event.run, CommitScheduler.complete, if_pos hf, TimerCompletion.failed]
    rw [hrun]
    refine ⟨?_, fun f hf => .inl hf, hsame, fun hfail hopen => hopen hfail, id, fun _ ha hs => ⟨ha, hs⟩, ?_, ?_, ?_, ?_⟩
    · simp [Event.adds]
    · simp
    · exact fun _ hn => absurd hf hn
    · grind -linarith
    · simp
  · cases hread : o.readError with
    | some error =>
      have hrun : Event.complete.run c o = c.failOpen o := by
        simp only [Event.run, CommitScheduler.complete, if_neg hf, hread, TimerCompletion.withError]
      rw [hrun]
      refine Outcome.of_open ?_ rfl hsame rfl
      simpa [Event.adds] using failOpen_released ho c
    | none =>
      have hdue := due_perm c fun entry => decide (entry.deadline ≤ o.now)
      simp only [Event.run, CommitScheduler.complete, if_neg hf, hread]
      obtain ⟨c', hrun, hd, hseq, hgood, hstep⟩ | ⟨error, released, c', hrun, hrel, hd, hseq, hbad⟩ :=
        armOrOpen_cases (c := { c with
          timer := Timespec.zero
          armed := none
          deadlines := (c.deadlines.popWhile fun entry => decide (entry.deadline ≤ o.now)).2 }) ho hf
      · rw [hrun]
        simp only [TimerCompletion.healthy]
        refine ⟨?_, ?_, hseq.trans hsame, fun hf => absurd hf hgood, fun hf' => absurd hf' hf,
          fun _ _ _ => hstep rfl, ?_, ?_, ?_, ?_⟩
        · grind [CommitScheduler.pending, Event.adds]
        · intro f hm
          rw [hd] at hm
          exact .inl ((dropWhile_sublist _).mem hm)
        · intro b hb
          obtain ⟨entry, hentry, rfl⟩ := mem_map.mp hb
          exact .inr ⟨entry, (takeWhile_sublist _).mem hentry, rfl, by simpa using Heap.of_mem_popWhile hentry⟩
        · exact fun _ _ => ⟨_, rfl, Heap.popWhile_sorted c.deadlines _, fun x hx => (takeWhile_sublist _).mem hx⟩
        · intro _ f hm _
          rw [hd] at hm
          have hnot := Heap.not_of_mem_rest (fun a b hab hb => ?_) hm
          · simpa using hnot
          · rw [decide_eq_true_iff] at hb ⊢
            exact (deadline_le hab).trans hb
        · simp
      · rw [hrun]
        simp only [TimerCompletion.withError]
        refine Outcome.of_open ?_ hd (hseq.trans hsame) hbad
        simpa [Event.adds] using (hrel.append_left _).trans hdue

theorem removeSurface_outcome (hc : c.sequence < 2 ^ 64) (surface : S) :
    Outcome c o (.removeSurface surface) ((Event.removeSurface surface).run c o).1
      ((Event.removeSurface surface).run c o).2 := by
  have hsame : c.sequence = (c.sequence + 0) % 2 ^ 64 := (Nat.mod_eq_of_lt hc).symm
  have hmine : ((c.deadlines.entries.filter fun entry => entry.barrier.surfaceId = surface).map TimedBarrier.barrier
      ++ (c.deadlines.retain fun entry => entry.barrier.surfaceId ≠ surface).entries.map TimedBarrier.barrier).Perm
        c.pending := by
    rw [← map_append]
    refine List.Perm.map _ ?_
    simpa [Heap.retain] using filter_append_perm (fun entry : TimedBarrier S B => entry.barrier.surfaceId = surface)
      c.deadlines.entries
  have htaken := ((ho c.deadlines.entries).filter fun entry => decide (entry.barrier.surfaceId = surface)).map
    TimedBarrier.barrier
  have hall := (htaken.append_right _).trans hmine
  have hgrant : ∀ b ∈ ((o.arrange c.deadlines.entries).filter fun entry => entry.barrier.surfaceId = surface).map
      TimedBarrier.barrier, b.surfaceId = surface := by
    intro b hb
    obtain ⟨entry, hentry, rfl⟩ := mem_map.mp hb
    simpa using (mem_filter.mp hentry).2
  have hleft : ∀ f ∈ (c.deadlines.retain fun entry => entry.barrier.surfaceId ≠ surface).entries,
      f ∈ c.deadlines.entries ∧ f.barrier.surfaceId ≠ surface := by
    simpa [Heap.retain] using hf
  simp only [Event.run, CommitScheduler.removeSurface]
  split_ifs with hf
  · refine ⟨?_, fun f hm => .inl (hleft f hm).1, hsame, ?_, fun _ => hf, fun hn => absurd hf hn, ?_, ?_, ?_, ?_⟩
    · simpa [Event.adds, CommitScheduler.pending] using hall
    · intro _ hopen
      simp [Heap.retain, hopen hf]
    · exact fun b hb => .inr (hgrant b hb)
    · simp
    · simp
    grind
  · obtain ⟨c', hrun, hd, hseq, hgood, hstep⟩ | ⟨error, released, c', hrun, hrel, hd, hseq, hbad⟩ :=
      armOrOpen_cases (c := { c with
        deadlines := c.deadlines.retain fun entry => decide (entry.barrier.surfaceId ≠ surface) }) ho hf
    · rw [hrun]
      refine ⟨?_, ?_, hseq.trans hsame, fun hf => absurd hf hgood, fun hf' => absurd hf' hf, fun _ _ hs => hstep hs,
        ?_, ?_, ?_, ?_⟩
      · grind [CommitScheduler.pending, Event.adds]
      · grind -linarith
      · intro b hb
        rw [append_nil] at hb
        exact .inr (hgrant b hb)
      · simp
      · simp
      grind
    · rw [hrun]
      refine Outcome.of_open ?_ hd (hseq.trans hsame) hbad
      simpa [Event.adds] using (hrel.append_left _).trans hall

theorem outcome (hc : c.sequence < 2 ^ 64) (e : Event S B) : Outcome c o e (e.run c o).1 (e.run c o).2 := by
  cases e with
  | register deadline barrier => exact register_outcome ho hc deadline barrier
  | complete => exact complete_outcome ho hc
  | removeSurface surface => exact removeSurface_outcome ho hc surface
  | fail =>
    refine Outcome.of_open ?_ rfl (Nat.mod_eq_of_lt hc).symm rfl
    simpa [Event.adds, Event.run] using failOpen_released ho c

end

end Outcomes

/-- The scheduler with what has been registered and handed back, and the clock of the last call. -/
structure Session (S B : Type) where
  scheduler : CommitScheduler S B
  clock : Deadline
  registered : List (Deadline × SurfaceBarrier S B)
  queued : Nat
  handed : List (SurfaceBarrier S B)

def Session.start : Session S B := ⟨.new, ⟨0, 0⟩, [], 0, []⟩

structure Turn (S B : Type) where
  event : Event S B
  outside : Outside S B

def Turn.released (u : Turn S B) (s : Session S B) : List (SurfaceBarrier S B) :=
  (u.event.run s.scheduler u.outside).1

variable (s : Session S B)

def Session.perform (u : Turn S B) : Session S B where
  scheduler := (u.event.run s.scheduler u.outside).2
  clock := u.outside.now
  registered := s.registered ++ u.event.adds
  queued := s.queued + (u.event.queues s.scheduler u.outside).length
  handed := s.handed ++ u.released s

/-- The clock does not go back, the heap hands out what it holds, and a barrier is registered once. -/
structure Turn.Allowed (u : Turn S B) (s : Session S B) : Prop where
  clock : s.clock ≤ u.outside.now
  arrange : ∀ xs, (u.outside.arrange xs).Perm xs
  fresh : ∀ p ∈ u.event.adds, p.2 ∉ s.registered.map Prod.snd

def Step (u : Turn S B) (t : Session S B) : Prop := u.Allowed s ∧ s.perform u = t

/-- The place of an entry among the registrations. -/
def place [DecidableEq B] (registered : List (Deadline × SurfaceBarrier S B)) (f : TimedBarrier S B) : Nat :=
  registered.idxOf (f.deadline, f.barrier)

section Invariant

variable [DecidableEq B] {s t : Session S B} {u : Turn S B}

structure Kept (s : Session S B) : Prop where
  accounted : (s.handed ++ s.scheduler.pending).Perm (s.registered.map Prod.snd)
  distinct : (s.registered.map Prod.snd).Nodup
  recorded : ∀ f ∈ s.scheduler.deadlines.entries, (f.deadline, f.barrier) ∈ s.registered
  positive : ∀ f ∈ s.scheduler.deadlines.entries, ⟨0, 0⟩ < f.deadline
  opened : s.scheduler.failed → s.scheduler.deadlines.entries = []
  armed : ¬ s.scheduler.failed → s.scheduler.armed = s.scheduler.earliest ∧ s.scheduler.InStep
  sequence : s.scheduler.sequence = s.queued % 2 ^ 64
  queued : s.queued ≤ s.registered.length
  numbered : s.registered.length ≤ 2 ^ 64 → ∀ f ∈ s.scheduler.deadlines.entries, f.sequence < s.queued
    ∧ ∀ g ∈ s.scheduler.deadlines.entries, f.sequence ≤ g.sequence → place s.registered f ≤ place s.registered g

omit [DecidableEq B] in
theorem mem_queues {c : CommitScheduler S B} {o : Outside S B} {e : Event S B} {f : TimedBarrier S B}
    (hf : f ∈ e.queues c o) : e.queues c o = [f] ∧ e.adds = [(f.deadline, f.barrier)] ∧ f.sequence = c.sequence
      ∧ o.now < f.deadline := by
  cases e with
  | register deadline barrier =>
    grind [Event.queues, Event.adds]
  | complete | removeSurface | fail => cases hf

theorem deadline_nonneg (d : Deadline) : (⟨0, 0⟩ : Deadline) ≤ d := by
  change toLex (0, 0) ≤ toLex (d.seconds, d.nanoseconds)
  rw [Prod.Lex.toLex_le_toLex]
  omega

omit [DecidableEq B] in
theorem length_queues_le (c : CommitScheduler S B) (o : Outside S B) (e : Event S B) :
    (e.queues c o).length ≤ e.adds.length := by
  cases e with
  | register deadline barrier =>
    rw [Event.queues]
    split_ifs <;> simp [Event.adds]
  | complete | removeSurface | fail => simp [Event.queues]

omit [DecidableEq B] [DecidableEq S] in
theorem nodup_adds (e : Event S B) : (e.adds.map Prod.snd).Nodup := by
  cases e <;> simp [Event.adds]

/-- A new entry has the greatest number and the last place, as long as the numbers do not wrap. -/
theorem Kept.numbered_step (h : Kept s) (hallowed : u.Allowed s)
    (hentries : ∀ f ∈ (s.perform u).scheduler.deadlines.entries, f ∈ s.scheduler.deadlines.entries
      ∨ f ∈ u.event.queues s.scheduler u.outside) (hroom : (s.perform u).registered.length ≤ 2 ^ 64) :
    ∀ f ∈ (s.perform u).scheduler.deadlines.entries, f.sequence < (s.perform u).queued
      ∧ ∀ g ∈ (s.perform u).scheduler.deadlines.entries, f.sequence ≤ g.sequence →
        place (s.perform u).registered f ≤ place (s.perform u).registered g := by
  simp only [Session.perform, length_append] at hroom ⊢
  have hnumbered := h.numbered (by omega)
  have hplace : ∀ f ∈ s.scheduler.deadlines.entries, place (s.registered ++ u.event.adds) f = place s.registered f :=
    fun f hf => idxOf_append_of_mem (h.recorded f hf)
  have hnew : ∀ f ∈ u.event.queues s.scheduler u.outside, f.sequence = s.queued
      ∧ place (s.registered ++ u.event.adds) f = s.registered.length
      ∧ (u.event.queues s.scheduler u.outside).length = 1 := by
    intro f hf
    obtain ⟨hone, hadds, hseq, -⟩ := mem_queues hf
    refine ⟨?_, ?_, by rw [hone]; rfl⟩
    · grind [h.sequence, h.queued]
    · grind +splitImp +splitIndPred [place]
  grind [place, Session.perform]

theorem Kept.step (h : Kept s) (hs : Step s u t) : Kept t := by
  obtain ⟨hallowed, rfl⟩ := hs
  have hlt : s.scheduler.sequence < 2 ^ 64 := by
    rw [h.sequence]
    exact Nat.mod_lt _ (by decide)
  have hout := outcome hallowed.arrange hlt u.event
  have hentries := hout.entries
  have hlen := length_queues_le s.scheduler u.outside u.event
  refine ⟨?_, ?_, ?_, ?_, ?_, ?_, ?_, ?_, ?_⟩
  · grind -linarith +splitImp +splitIndPred [Session.perform, Turn.released]
  · simp only [Session.perform, map_append]
    rw [nodup_append]
    refine ⟨h.distinct, nodup_adds u.event, fun b hb b' hb' heq => ?_⟩
    obtain ⟨p, hp, rfl⟩ := mem_map.mp hb'
    exact hallowed.fresh p hp (heq ▸ hb)
  · intro f hf
    simp only [Session.perform, mem_append]
    obtain hold | hnew := hentries f hf
    · exact .inl (h.recorded f hold)
    · rw [(mem_queues hnew).2.1]
      exact .inr (mem_singleton_self _)
  · intro f hf
    obtain hold | hnew := hentries f hf
    · exact h.positive f hold
    · exact lt_of_le_of_lt (deadline_nonneg _) (mem_queues hnew).2.2.2
  · exact fun hf => hout.opened hf h.opened
  · intro hf
    have hold : ¬ s.scheduler.failed := fun hb => hf (hout.stays hb)
    exact hout.armed hf (h.armed hold).1 (h.armed hold).2
  · simp only [Session.perform]
    rw [hout.sequence, h.sequence, Nat.mod_add_mod]
  · simp only [Session.perform, length_append]
    exact Nat.add_le_add h.queued hlen
  · exact h.numbered_step hallowed hentries

theorem kept_start : Kept (Session.start : Session S B) := by
  refine ⟨List.Perm.refl _, nodup_nil, ?_, ?_, ?_, fun _ => ⟨rfl, rfl⟩, rfl, Nat.le_refl 0, ?_⟩ <;>
    simp [Session.start, CommitScheduler.new]

theorem run_kept {us : List (Turn S B)} (h : Run Step .start us s) : Kept s :=
  h.invariant (P := Kept) (Q := fun _ => True) (fun s u t hs _ hstep => hs.step hstep) kept_start fun _ _ => trivial

/-- One barrier is handed back before another: it has the earlier deadline, or the same and was
registered first. -/
def Before (registered : List (Deadline × SurfaceBarrier S B)) (a b : SurfaceBarrier S B) : Prop :=
  ∀ d e, (d, a) ∈ registered → (e, b) ∈ registered →
    d < e ∨ d = e ∧ registered.idxOf (d, a) ≤ registered.idxOf (e, b)

omit [DecidableEq B] [DecidableEq S] in
theorem deadline_unique {registered : List (Deadline × SurfaceBarrier S B)} (hn : (registered.map Prod.snd).Nodup)
    {d e : Deadline} {b : SurfaceBarrier S B} (hd : (d, b) ∈ registered) (he : (e, b) ∈ registered) : d = e := by
  grind [inj_on_of_nodup_map]

/-- What one call may hand back, and in which order, and what it may not leave waiting. -/
structure Prompt (s : Session S B) (u : Turn S B) (t : Session S B) : Prop where
  due : ∀ b ∈ u.released s, t.scheduler.failed ∨ u.event = .removeSurface b.surfaceId
    ∨ ∀ d, (d, b) ∈ t.registered → d ≤ u.outside.now
  ordered : u.event = .complete → ¬ t.scheduler.failed → t.registered.length ≤ 2 ^ 64 →
    (u.released s).Pairwise (Before t.registered)
  waiting : u.event = .complete → ∀ f ∈ t.scheduler.deadlines.entries, u.outside.now < f.deadline
  left : ∀ surface, u.event = .removeSurface surface →
    ∀ f ∈ t.scheduler.deadlines.entries, f.barrier.surfaceId ≠ surface

theorem Kept.prompt (h : Kept s) (hs : Step s u t) : Prompt s u t := by
  have ht := h.step hs
  obtain ⟨hallowed, rfl⟩ := hs
  have hlt : s.scheduler.sequence < 2 ^ 64 := by
    rw [h.sequence]
    exact Nat.mod_lt _ (by decide)
  have hout := outcome hallowed.arrange hlt u.event
  refine ⟨fun b hb => ?_, fun hc hf hroom => ?_, fun hc f hf => hout.waiting hc f hf h.opened, hout.left⟩
  · refine (hout.granted b hb).imp id fun hgrant => ?_
    cases he : u.event with
    | register deadline barrier =>
      rw [he] at hgrant
      obtain ⟨rfl, hle⟩ := hgrant
      grind [Session.perform, Event.adds, ht.distinct]
    | complete =>
      rw [he] at hgrant
      obtain ⟨f, hf, rfl, hle⟩ := hgrant
      refine .inr fun d hd => ?_
      have hmine : (f.deadline, f.barrier) ∈ (s.perform u).registered := mem_append_left _ (h.recorded f hf)
      rwa [deadline_unique ht.distinct hd hmine]
    | removeSurface surface =>
      rw [he] at hgrant
      grind [hgrant.symm]
    | fail =>
      rw [he] at hgrant
      cases hgrant
  · obtain ⟨due, hdue, hsorted, hmem⟩ := hout.ordered hc hf
    have hreg : (s.perform u).registered = s.registered := by simp [Session.perform, hc, Event.adds]
    rw [hreg] at hroom ⊢
    rw [Turn.released, hdue, pairwise_map]
    refine hsorted.imp_of_mem fun {x y} hx hy hle => ?_
    intro d e hd he
    obtain rfl := deadline_unique h.distinct hd (h.recorded x (hmem x hx))
    obtain rfl := deadline_unique h.distinct he (h.recorded y (hmem y hy))
    refine (Prod.Lex.toLex_le_toLex.mp hle).imp id fun hsame => ⟨hsame.1, ?_⟩
    exact (h.numbered hroom x (hmem x hx)).2 y (hmem y hy) hsame.2

theorem Kept.timer (h : Kept s) (hf : ¬ s.scheduler.failed) {e : TimedBarrier S B}
    (he : e ∈ s.scheduler.deadlines.entries) (hleast : ∀ f ∈ s.scheduler.deadlines.entries, e.deadline ≤ f.deadline) :
    s.scheduler.timer = e.deadline.timespec.getD Timespec.zero := by
  obtain ⟨harmed, hstep⟩ := h.armed hf
  cases hpeek : s.scheduler.deadlines.peek with
  | none =>
    rw [Heap.peek_eq_none.mp hpeek] at he
    cases he
  | some p =>
    grind [le_antisymm, deadline_le, Heap.le_of_peek, Heap.mem_of_peek, CommitScheduler.InStep, CommitScheduler.earliest]

theorem timespec_ne_zero {d : Deadline} (h : (⟨0, 0⟩ : Deadline) < d) :
    (⟨d.seconds, d.nanoseconds⟩ : Timespec) ≠ Timespec.zero := by
  intro heq
  rw [Timespec.zero, Timespec.mk.injEq, Int.natCast_eq_zero, Int.natCast_eq_zero] at heq
  have hzero : d = ⟨0, 0⟩ := by
    cases d
    simpa using heq
  exact absurd h (by rw [hzero]; exact lt_irrefl _)

/-- The commit timing scheduler: after any calls each registered barrier has been handed back or is
pending, exactly once; a healthy scheduler has its timer at the earliest pending deadline that a
timer can be set to, and disarmed for one beyond; and each call hands back what is due, in order,
and nothing earlier. -/
theorem commit_scheduler_invariant (us : List (Turn S B)) (s : Session S B) (h : Run Step .start us s) :
    ((s.handed ++ s.scheduler.pending).Perm (s.registered.map Prod.snd) ∧ (s.registered.map Prod.snd).Nodup)
    ∧ (s.scheduler.failed → s.scheduler.pending = []) ∧ (¬ s.scheduler.failed → ∀ e ∈ s.scheduler.deadlines.entries,
        (∀ f ∈ s.scheduler.deadlines.entries, e.deadline ≤ f.deadline) →
        (e.deadline.seconds < 2 ^ 63 → s.scheduler.timer = ⟨e.deadline.seconds, e.deadline.nanoseconds⟩
          ∧ s.scheduler.timer ≠ Timespec.zero) ∧ (2 ^ 63 ≤ e.deadline.seconds → s.scheduler.timer = Timespec.zero))
    ∧ ∀ u t, Step s u t → Prompt s u t := by
  have hkept := run_kept h
  refine ⟨⟨hkept.accounted, hkept.distinct⟩, fun hf => ?_, fun hf e he hleast => ?_, fun u t hs => hkept.prompt hs⟩
  · rw [CommitScheduler.pending, hkept.opened hf]
    rfl
  · have htimer := hkept.timer hf he hleast
    grind [Deadline.timespec, timespec_ne_zero, hkept.positive]

end Invariant

section Limits

variable (now : Nat)

/-- A call that meets no error. -/
def smoothly : Outside Nat Nat := ⟨⟨now, 0⟩, none, none, none, id⟩

theorem allowed_smoothly {s : Session Nat Nat} {e : Event Nat Nat} {now : Nat} (hclock : s.clock ≤ ⟨now, 0⟩)
    (hfresh : ∀ p ∈ e.adds, p.2 ∉ s.registered.map Prod.snd) : Turn.Allowed ⟨e, smoothly now⟩ s :=
  ⟨hclock, List.Perm.refl, hfresh⟩

/-- Two barriers of one deadline, handed back together. -/
def pair : List (Turn Nat Nat) :=
  [⟨.register ⟨10, 0⟩ ⟨1, 21⟩, smoothly 5⟩, ⟨.register ⟨10, 0⟩ ⟨2, 22⟩, smoothly 6⟩]

theorem commit_scheduler_invariant_pair : Prompt (pair.foldl Session.perform .start) ⟨.complete, smoothly 10⟩
        ((pair.foldl Session.perform .start).perform ⟨.complete, smoothly 10⟩)
      ∧ ((pair.foldl Session.perform .start).perform ⟨.complete, smoothly 10⟩).handed = [⟨1, 21⟩, ⟨2, 22⟩] := by
  refine ⟨(commit_scheduler_invariant pair _ ?_).2.2.2 _ _ ⟨allowed_smoothly (by decide) (by simp [Event.adds]), rfl⟩,
    by decide⟩
  exact .cons ⟨allowed_smoothly (by decide) (by simp [Event.adds, Session.start]), rfl⟩
    (.cons ⟨allowed_smoothly (by decide) (by decide), rfl⟩ (.nil _))

/-- After `n` barriers that were registered and removed again. -/
def turnover (n : Nat) : Session Nat Nat where
  scheduler := { CommitScheduler.new with sequence := n % 2 ^ 64 }
  clock := ⟨0, 0⟩
  registered := (List.range n).map fun i => (⟨10, 0⟩, ⟨0, i⟩)
  queued := n
  handed := (List.range n).map fun i => ⟨0, i⟩

theorem fresh_turnover (n i : Nat) (h : n ≤ i) (s : Nat) :
    (⟨s, i⟩ : SurfaceBarrier Nat Nat) ∉ (turnover n).registered.map Prod.snd := by
  grind [turnover]

theorem armOrOpen_of_ne {c : CommitScheduler S B} {o : Outside S B} (h : c.armed ≠ c.earliest)
    (ho : o.settimeError = none) :
    c.armOrOpen o = (none, [], { c with
      timer := (c.earliest.bind Deadline.timespec).getD Timespec.zero
      armed := c.earliest }) := by
  rw [CommitScheduler.armOrOpen, CommitScheduler.armEarliest, if_neg h, ho]

variable (n : Nat)

theorem register_turnover (b : SurfaceBarrier Nat Nat) :
    (turnover n).perform ⟨.register ⟨10, 0⟩ b, smoothly 0⟩ =
      { scheduler := ⟨⟨10, 0⟩, ⟨[⟨⟨10, 0⟩, n % 2 ^ 64, b⟩], pairwise_singleton _ _⟩,
          (n % 2 ^ 64 + 1) % 2 ^ 64, some ⟨10, 0⟩, false⟩
        clock := ⟨0, 0⟩
        registered := (turnover n).registered ++ [(⟨10, 0⟩, b)]
        queued := n + 1
        handed := (turnover n).handed } := by
  have hnow : ¬ ((turnover n).scheduler.failed = true ∨ (⟨10, 0⟩ : Deadline) ≤ (smoothly 0).now) := by
    change ¬ (false = true ∨ (⟨10, 0⟩ : Deadline) ≤ ⟨0, 0⟩)
    decide
  simp only [Session.perform, Turn.released, Event.run, CommitScheduler.register, if_neg hnow]
  rw [armOrOpen_of_ne (Option.some_ne_none _).symm rfl, append_nil]
  rfl

theorem remove_turnover :
    ((turnover n).perform ⟨.register ⟨10, 0⟩ ⟨0, n⟩, smoothly 0⟩).perform ⟨.removeSurface 0, smoothly 0⟩
      = turnover (n + 1) := by
  have hmod : (n % 2 ^ 64 + 1) % 2 ^ 64 = (n + 1) % 2 ^ 64 := Nat.mod_add_mod n (2 ^ 64) 1
  rw [register_turnover, hmod]
  simp only [turnover, range_succ]
  simp only [Session.perform, Turn.released, Event.run, CommitScheduler.removeSurface]
  rw [armOrOpen_of_ne _ rfl]
  · simp [CommitScheduler.new, Heap.retain, smoothly, CommitScheduler.earliest, Heap.peek, Event.adds, Event.queues]
    rfl
  · simp [CommitScheduler.earliest, Heap.retain, Heap.peek]

theorem run_turnover : ∃ us, Run Step .start us (turnover n) := by
  induction n with
  | zero => exact ⟨[], .nil _⟩
  | succ n ih =>
    obtain ⟨us, h⟩ := ih
    refine ⟨us ++ [⟨.register ⟨10, 0⟩ ⟨0, n⟩, smoothly 0⟩] ++ [⟨.removeSurface 0, smoothly 0⟩],
      (h.snoc ⟨allowed_smoothly (le_refl _) ?_, rfl⟩).snoc
        ⟨allowed_smoothly (le_refl _) (by simp [Event.adds]), remove_turnover n⟩⟩
    grind [Event.adds, fresh_turnover]

/-- Two more barriers of one deadline at the point where the number of the next one wraps to zero. -/
def wrapped : Session Nat Nat :=
  ((turnover (2 ^ 64 - 1)).perform ⟨.register ⟨10, 0⟩ ⟨1, 2 ^ 64⟩, smoothly 0⟩).perform
    ⟨.register ⟨10, 0⟩ ⟨2, 2 ^ 64 + 1⟩, smoothly 0⟩

theorem wrapped_scheduler : wrapped.scheduler =
    ⟨⟨10, 0⟩, ⟨[⟨⟨10, 0⟩, 0, ⟨2, 2 ^ 64 + 1⟩⟩, ⟨⟨10, 0⟩, 2 ^ 64 - 1, ⟨1, 2 ^ 64⟩⟩], by decide⟩, 1, some ⟨10, 0⟩, false⟩ := by
  rfl

/-- A heap that hands out its entries in the order they were pushed. -/
def byPush (readError : Option String) : Outside Nat Nat :=
  ⟨⟨now, 0⟩, readError, none, none, fun xs => xs.insertionSort fun a b => a.sequence ≤ b.sequence⟩

def threeDeadlines : Session Nat Nat :=
  [⟨.register ⟨10, 0⟩ ⟨1, 21⟩, byPush 5 none⟩, ⟨.register ⟨30, 0⟩ ⟨1, 22⟩, byPush 5 none⟩,
    ⟨.register ⟨20, 0⟩ ⟨1, 23⟩, byPush 5 none⟩].foldl Session.perform .start

/-- A healthy scheduler has its timer disarmed while it waits for a deadline beyond the timer's
range; a completion that fails hands the barriers back in no order; and barriers of one deadline
change places when their numbers wrap. -/
theorem timer_range_failures_and_wrapping :
    (∃ us s, Run (Step (S := Nat) (B := Nat)) .start us s ∧ ¬ s.scheduler.failed ∧ s.scheduler.pending = [⟨1, 21⟩]
      ∧ s.scheduler.timer = Timespec.zero)
    ∧ (∃ us, Run Step .start us threeDeadlines
      ∧ Step threeDeadlines ⟨.complete, byPush 5 (some "EAGAIN")⟩
          (threeDeadlines.perform ⟨.complete, byPush 5 (some "EAGAIN")⟩)
      ∧ Turn.released ⟨.complete, byPush 5 (some "EAGAIN")⟩ threeDeadlines = [⟨1, 21⟩, ⟨1, 22⟩, ⟨1, 23⟩])
    ∧ ∃ us, Run Step .start us wrapped ∧ Step wrapped ⟨.complete, smoothly 10⟩ (wrapped.perform ⟨.complete, smoothly 10⟩)
      ∧ Turn.released ⟨.complete, smoothly 10⟩ wrapped = [⟨2, 2 ^ 64 + 1⟩, ⟨1, 2 ^ 64⟩] := by
  refine ⟨⟨[⟨.register ⟨2 ^ 63, 0⟩ ⟨1, 21⟩, smoothly 5⟩], _, .cons ⟨allowed_smoothly (by decide) (by decide), rfl⟩
    (.nil _), by decide⟩, ?_, ?_⟩
  · have hallowed : ∀ {s : Session Nat Nat} {e : Event Nat Nat} {error : Option String}, s.clock ≤ ⟨5, 0⟩ →
        (∀ p ∈ e.adds, p.2 ∉ s.registered.map Prod.snd) → Turn.Allowed ⟨e, byPush 5 error⟩ s :=
      fun hclock hfresh => ⟨hclock, fun xs => perm_insertionSort _ xs, hfresh⟩
    exact ⟨_, .cons ⟨hallowed (by decide) (by decide), rfl⟩ (.cons ⟨hallowed (by decide) (by decide), rfl⟩
      (.cons ⟨hallowed (by decide) (by decide), rfl⟩ (.nil _))),
      ⟨hallowed (by decide) (by simp [Event.adds]), rfl⟩, by decide⟩
  · obtain ⟨us, h⟩ := run_turnover (2 ^ 64 - 1)
    refine ⟨_, (h.snoc ⟨allowed_smoothly (le_refl _) ?_, rfl⟩).snoc ⟨allowed_smoothly (le_refl _) ?_, rfl⟩,
      ⟨allowed_smoothly ?_ (by simp [Event.adds]), rfl⟩, ?_⟩
    · grind [Event.adds, fresh_turnover]
    · grind [Event.adds, register_turnover, fresh_turnover]
    · exact deadline_nonneg _
    · rw [Turn.released, wrapped_scheduler]
      decide

end Limits

end TensorDE.Wm.SurfaceTiming
