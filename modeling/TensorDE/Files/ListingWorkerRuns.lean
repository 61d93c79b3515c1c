import TensorDE.Files.ListingWorker
import Mathlib.Logic.Relation

namespace TensorDE.Files

open Maps ListingWorkerState List

variable {P E : Type}

inductive Worker (P E : Type) where
  | waiting
  /-- With the entries read and not yet dispatched, and whether the directory could be opened. -/
  | reading (batch : ListingBatch P) (pendingEntries : List E) (opened : Bool)
  | panicked

/-- The worker with the panes that use it. Each pane has one lister, which draws a new serial for each
request, and a request waits in `requested` until its pane schedules it. The last four fields are the
history: the requests scheduled, the latest one of each pane unless it was cancelled, and for each target
the entries published for it and the entries drained for it. -/
structure World (P E : Type) where
  state : ListingWorkerState P E
  worker : Worker P E
  serials : PaneId → RequestSerial
  requested : List (ListingRequest P)
  scheduled : List (ListingRequest P)
  latest : PaneId → Option (ListingRequest P)
  published : EventTarget P → List E
  drained : EventTarget P → List E

namespace World

def new : World P E := ⟨.new, .waiting, fun _ => 0, [], [], fun _ => none, fun _ => [], fun _ => []⟩

variable (w : World P E)

def draw (pane : PaneId) : World P E :=
  { w with serials := Function.update w.serials pane (w.serials pane + 1) }

def load (request : ListingRequest P) : World P E :=
  { w.draw request.paneId with requested := w.requested ++ [request] }

variable [DecidableEq P]

/-- The pane has handed a request over, which left the worker in `state`. -/
def handOver (request : ListingRequest P) (state : ListingWorkerState P E) : World P E :=
  { w with
    state
    requested := w.requested.erase request
    scheduled := request :: w.scheduled
    latest := Function.update w.latest request.paneId (some request) }

def cancel (pane : PaneId) : World P E :=
  { w with state := w.state.cancelPane pane, latest := Function.update w.latest pane none }

/-- `listing_worker_loop` once it is awake. It expects a batch. -/
def pop : World P E :=
  { w with
    state := w.state.popBatch.2
    worker := match w.state.popBatch.1 with
      | some batch => .reading batch [] false
      | none => .panicked }

def publish (batch : ListingBatch P) (events : List (DirectoryListerEvent P E))
    (worker : Worker P E) : World P E :=
  { w with
    state := (w.state.publishBatchIfCurrent batch events).2
    worker
    published := fun target =>
      if target ∈ batch.requests.map ListingRequest.target
      then w.published target ++ events.flatMap DirectoryListerEvent.entries else w.published target }

def drain : World P E :=
  { w with
    state := w.state.drainResults.2
    drained := fun target => w.drained target ++
      (w.state.drainResults.1.flatten.filter fun event => event.target = target).flatMap DirectoryListerEvent.entries }

end World

/-- What a read that fails is reported as. -/
def DirectoryListerEvent.IsFailure : DirectoryListerEvent P E → Prop
  | .currentDirectoryRemoved _ | .error _ _ | .networkAuthRequired _ _ _ _ _ => True
  | _ => False

/-- The steps of the panes and of the worker thread, each of which holds the lock. -/
inductive Step [DecidableEq P] : World P E → World P E → Prop where
  /-- The lister of a pane draws a serial for something that is not a request. -/
  | draw {w : World P E} (pane : PaneId) : Step w (w.draw pane)
  | load {w : World P E} {request : ListingRequest P} : request.requestSerial = w.serials request.paneId + 1 →
      Step w (w.load request)
  | schedule {w : World P E} {request : ListingRequest P} : request ∈ w.requested → w.state.shutdown = false →
      Step w (w.handOver request (w.state.schedule request))
  | scheduleOrCached {w : World P E} {request : ListingRequest P} (fresh : Option (List E)) :
      request ∈ w.requested → w.state.shutdown = false →
      Step w (w.handOver request (w.state.scheduleOrCached request fresh).2)
  | cancel {w : World P E} (pane : PaneId) : Step w (w.cancel pane)
  | pop {w : World P E} : w.worker = .waiting → w.state.pending ≠ [] → w.state.shutdown = false → Step w w.pop
  /-- The directory is open and some entries were read. -/
  | read {w : World P E} {batch : ListingBatch P} {pendingEntries : List E} {opened : Bool} (entries : List E) :
      w.worker = .reading batch pendingEntries opened →
      Step w { w with worker := .reading batch (pendingEntries ++ entries) true }
  | dispatch {w : World P E} {batch : ListingBatch P} {first : ListingRequest P} {pendingEntries : List E}
      {opened : Bool} : w.worker = .reading batch pendingEntries opened → batch.requests.head? = some first →
      pendingEntries ≠ [] →
      Step w (w.publish batch [.itemsAdded { first.target with path := batch.path } pendingEntries]
        (.reading batch [] opened))
  | complete {w : World P E} {batch : ListingBatch P} {first : ListingRequest P} {opened : Bool} :
      w.worker = .reading batch [] opened → batch.requests.head? = some first →
      Step w (w.publish batch [.listingCompleted { first.target with path := batch.path }] .waiting)
  /-- A directory that cannot be opened gives no entries. -/
  | fail {w : World P E} {batch : ListingBatch P} {event : DirectoryListerEvent P E} :
      w.worker = .reading batch [] false → event.IsFailure → Step w (w.publish batch [event] .waiting)
  | abandon {w : World P E} {batch : ListingBatch P} {pendingEntries : List E} {opened : Bool} :
      w.worker = .reading batch pendingEntries opened → w.state.batchCancelled batch →
      Step w { w with worker := .waiting }
  | drain {w : World P E} : Step w w.drain
  | drop {w : World P E} : Step w { w with state := w.state.drop }

/-- Two requests that no pane can have both made. -/
def ListingRequest.Clear (a b : ListingRequest P) : Prop := a.paneId = b.paneId → a.requestSerial ≠ b.requestSerial

theorem ListingRequest.Clear.symm {a b : ListingRequest P} (h : a.Clear b) : b.Clear a :=
  fun hp => (h hp.symm).symm

instance : Std.Symm (ListingRequest.Clear (P := P)) := ⟨fun _ _ => ListingRequest.Clear.symm⟩

/-- What holds between the worker, its panes and the history. -/
structure World.Sound (w : World P E) : Prop where
  keys : ∀ pane, w.state.latestRequestByPane.find pane = (w.latest pane).map ListingRequest.key
  latest : ∀ pane request, w.latest pane = some request → request.paneId = pane ∧ request ∈ w.scheduled
  distinct : (w.requested ++ w.scheduled).Pairwise ListingRequest.Clear
  drawn : ∀ request ∈ w.requested ++ w.scheduled, request.requestSerial ≤ w.serials request.paneId
  pending : ∀ request ∈ w.state.pending, w.latest request.paneId = some request ∧ w.published request.target = []
  single : (w.state.pending.map ListingRequest.paneId).Nodup
  reading : ∀ batch entries opened, w.worker = .reading batch entries opened →
    (batch.requests.map ListingRequest.paneId).Nodup ∧
    (∀ request ∈ batch.requests, request ∈ w.scheduled ∧ request ∉ w.state.pending) ∧
    (opened = false → entries = [] ∧ ∀ request ∈ batch.requests, w.published request.target = [])
  running : w.worker ≠ .panicked
  history : ∀ target, w.published target ≠ [] ∨ w.drained target ≠ [] → ∃ request ∈ w.scheduled, request.target = target
  results : ∀ pane results, w.state.resultsByPane.find pane = some results →
    ∃ request, w.latest pane = some request ∧ ∀ event ∈ results, event.target = request.target
  entries : w.state.shutdown = false → ∀ pane request, w.latest pane = some request →
    w.drained request.target ++
      ((w.state.resultsByPane.find pane).getD []).flatMap DirectoryListerEvent.entries = w.published request.target

namespace World

variable {w : World P E}

variable {a b : ListingRequest P}

theorem Sound.unique (h : w.Sound) (ha : a ∈ w.scheduled) (hb : b ∈ w.scheduled)
    (hp : a.paneId = b.paneId) (hs : a.requestSerial = b.requestSerial) : a = b := by
  have hd := (pairwise_append.mp h.distinct).2.1
  by_contra hne
  exact hd.forall ha hb hne hp hs

theorem Sound.unique_target (h : w.Sound) (ha : a ∈ w.scheduled) (hb : b ∈ w.scheduled)
    (ht : a.target = b.target) : a = b :=
  h.unique ha hb (congrArg EventTarget.paneId ht) (congrArg EventTarget.requestSerial ht)

variable {request : ListingRequest P}

theorem Sound.isCurrent_iff (h : w.Sound) (hr : request ∈ w.scheduled) :
    w.state.isCurrent request ↔ w.latest request.paneId = some request := by
  simp only [isCurrent, h.keys, Option.map_eq_some_iff, decide_eq_true_eq]
  constructor
  · rintro ⟨other, ho, hk⟩
    have hl := h.latest _ _ ho
    rw [ho, h.unique hl.2 hr hl.1 (congrArg ListingRequestKey.requestSerial hk)]
  · exact fun hl => ⟨request, hl, rfl⟩

theorem Sound.unseen (h : w.Sound) (hr : request ∈ w.requested) :
    w.published request.target = [] ∧ w.drained request.target = [] := by
  have hd := (pairwise_append.mp h.distinct).2.2
  have hno : ¬ (w.published request.target ≠ [] ∨ w.drained request.target ≠ []) := by
    intro hex
    obtain ⟨other, ho, ht⟩ := h.history _ hex
    exact hd request hr other ho (congrArg EventTarget.paneId ht.symm) (congrArg EventTarget.requestSerial ht.symm)
  grind

theorem sound_new : (new : World P E).Sound where
  keys _ := Map.find_empty _
  latest _ _ h := by simp [new] at h
  distinct := .nil
  drawn _ h := by simp [new] at h
  pending _ h := by simp [new, ListingWorkerState.new] at h
  single := .nil
  reading _ _ _ h := by simp [new] at h
  running := nofun
  history _ h := by simp [new] at h
  results _ _ h := by simp [new, ListingWorkerState.new] at h
  entries _ _ _ h := by simp [new] at h

theorem Sound.draw (h : w.Sound) (pane : PaneId) : (w.draw pane).Sound :=
  { h with
    drawn := by
      intro request hr
      have hle := h.drawn request hr
      by_cases hp : request.paneId = pane
      · subst hp
        simpa [World.draw] using Nat.le_succ_of_le hle
      · simpa [World.draw, hp] using hle }

/-- A new serial is larger than those of all earlier requests of the pane. -/
theorem Sound.load (h : w.Sound) (hs : request.requestSerial = w.serials request.paneId + 1) :
    (w.load request).Sound := by
  have hmem : ∀ {other}, other ∈ (w.requested ++ [request]) ++ w.scheduled →
      other = request ∨ other ∈ w.requested ++ w.scheduled := by
    intro other ho
    simp only [mem_append, mem_singleton] at ho ⊢
    tauto
  have hperm : ((w.requested ++ [request]) ++ w.scheduled).Perm (request :: (w.requested ++ w.scheduled)) := by
    simp
  refine { h.draw request.paneId with distinct := ?_, drawn := ?_ }
  · refine hperm.symm.pairwise (pairwise_cons.mpr ⟨fun other ho hp => ?_, h.distinct⟩) ListingRequest.Clear.symm
    rw [hs, hp]
    exact Nat.ne_of_gt (Nat.lt_succ_of_le (h.drawn other ho))
  · intro other ho
    obtain rfl | ho := hmem ho
    · simp [World.load, World.draw, hs]
    · exact (h.draw request.paneId).drawn other ho

theorem Sound.cancel [DecidableEq P] (h : w.Sound) (pane : PaneId) : (w.cancel pane).Sound where
  keys p := by
    by_cases hp : p = pane
    · simp [World.cancel, cancelPane, hp]
    · simpa [World.cancel, cancelPane, hp] using h.keys p
  latest p request hl := by
    by_cases hp : p = pane
    · simp [World.cancel, hp] at hl
    · exact h.latest p request (by simpa [World.cancel, hp] using hl)
  distinct := h.distinct
  drawn := h.drawn
  pending request hr := by
    simp only [World.cancel, cancelPane, mem_filter, decide_eq_true_eq] at hr
    simpa [World.cancel, hr.2] using h.pending request hr.1
  single := h.single.sublist (filter_sublist.map _)
  reading batch entries opened hw := by
    obtain ⟨hn, hm, ho⟩ := h.reading batch entries opened hw
    refine ⟨hn, fun request hr => ⟨(hm request hr).1, fun hp => (hm request hr).2 ?_⟩, ho⟩
    exact mem_of_mem_filter hp
  running := h.running
  history := h.history
  results p results hf := by
    by_cases hp : p = pane
    · simp [World.cancel, cancelPane, hp] at hf
    · simpa [World.cancel, hp] using h.results p results (by simpa [World.cancel, cancelPane, hp] using hf)
  entries hs p request hl := by
    by_cases hp : p = pane
    · simp [World.cancel, hp] at hl
    · simpa [World.cancel, cancelPane, hp] using h.entries hs p request (by simpa [World.cancel, hp] using hl)

theorem moved [DecidableEq P] {request : ListingRequest P} (hr : request ∈ w.requested) :
    (w.requested.erase request ++ request :: w.scheduled).Perm (w.requested ++ w.scheduled) :=
  perm_middle.trans ((perm_cons_erase hr).symm.append_right w.scheduled)

/-- A request takes the place of the earlier one of its pane; only then it may wait to be popped. -/
theorem Sound.handOver [DecidableEq P] (h : w.Sound) {request : ListingRequest P} (hr : request ∈ w.requested)
    (tail : List (ListingRequest P)) (ht : tail = [] ∨ tail = [request]) :
    (w.handOver request { w.state.supersede request with
      pending := (w.state.supersede request).pending ++ tail }).Sound := by
  have hclear := (pairwise_append.mp h.distinct).2.2 request hr
  have htail : ∀ other ∈ tail, other = request := by
    obtain rfl | rfl := ht <;> simp
  refine { keys := ?_, latest := ?_, distinct := ?_, drawn := ?_, pending := ?_, single := ?_, reading := ?_,
           running := h.running, history := ?_, results := ?_, entries := ?_ }
  · intro p
    by_cases hp : p = request.paneId
    · simp [World.handOver, supersede, hp]
    · simpa [World.handOver, supersede, hp] using h.keys p
  · intro p other hl
    by_cases hp : p = request.paneId
    · subst hp
      simp only [World.handOver, Function.update_self, Option.some.injEq] at hl
      exact ⟨congrArg _ hl.symm, hl ▸ mem_cons_self⟩
    · obtain ⟨ho, hm⟩ := h.latest p other (by simpa [World.handOver, hp] using hl)
      exact ⟨ho, mem_cons_of_mem _ hm⟩
  · exact (moved hr).symm.pairwise h.distinct ListingRequest.Clear.symm
  · exact fun other ho => h.drawn other ((moved hr).mem_iff.mp ho)
  · intro other ho
    simp only [World.handOver, supersede, mem_append, mem_filter, decide_eq_true_eq] at ho
    obtain ⟨ho, hp⟩ | ho := ho
    · simpa [World.handOver, hp] using h.pending other ho
    · obtain rfl := htail other ho
      simpa [World.handOver] using (h.unseen hr).1
  · simp only [World.handOver, supersede, map_append]
    refine List.Nodup.append (h.single.sublist (filter_sublist.map _)) ?_ ?_
    · obtain rfl | rfl := ht <;> simp
    · intro p hp hq
      grind
  · intro batch entries opened hw
    obtain ⟨hn, hm, ho⟩ := h.reading batch entries opened hw
    refine ⟨hn, fun other hb => ⟨mem_cons_of_mem _ (hm other hb).1, fun hp => ?_⟩, ho⟩
    simp only [World.handOver, supersede, mem_append, mem_filter] at hp
    obtain hp | hp := hp
    · exact (hm other hb).2 hp.1
    · obtain rfl := htail other hp
      exact hclear other (hm other hb).1 rfl rfl
  · intro target hex
    obtain ⟨other, ho, ht⟩ := h.history target hex
    exact ⟨other, mem_cons_of_mem _ ho, ht⟩
  · intro p results hf
    by_cases hp : p = request.paneId
    · simp [World.handOver, supersede, hp] at hf
    · simpa [World.handOver, hp] using h.results p results (by simpa [World.handOver, supersede, hp] using hf)
  · intro hs p other hl
    by_cases hp : p = request.paneId
    · subst hp
      simp only [World.handOver, Function.update_self, Option.some.injEq] at hl
      subst hl
      simpa [World.handOver, supersede] using ((h.unseen hr).2.trans (h.unseen hr).1.symm)
    · simpa [World.handOver, supersede, hp] using h.entries hs p other (by simpa [World.handOver, hp] using hl)

theorem Sound.schedule [DecidableEq P] (h : w.Sound) {request : ListingRequest P} (hr : request ∈ w.requested) :
    (w.handOver request (w.state.schedule request)).Sound :=
  h.handOver hr [request] (.inr rfl)

theorem Sound.scheduleOrCached [DecidableEq P] (h : w.Sound) {request : ListingRequest P}
    (hr : request ∈ w.requested) (fresh : Option (List E)) :
    (w.handOver request (w.state.scheduleOrCached request fresh).2).Sound := by
  unfold ListingWorkerState.scheduleOrCached
  cases cachedEventsFor request fresh with
  | none => exact h.schedule hr
  | some events => simpa using h.handOver hr [] (.inl rfl)

theorem Sound.popBatch [DecidableEq P] (h : w.Sound) (hne : w.state.pending ≠ []) :
    ∃ batch rest, popFrom w.state.isCurrent w.state.pending = (some batch, rest) ∧ batch.requests ≠ [] ∧
      (batch.requests ++ rest).Perm w.state.pending := by
  refine popFrom_perm hne fun request hr => ?_
  grind [h.pending, h.isCurrent_iff, h.latest]

theorem Sound.pop [DecidableEq P] (h : w.Sound) (hne : w.state.pending ≠ []) : w.pop.Sound := by
  obtain ⟨batch, rest, hpop, -, hperm⟩ := h.popBatch hne
  have hstate : w.pop.state = { w.state with pending := rest } := by
    simp [World.pop, ListingWorkerState.popBatch, hpop]
  have hworker : w.pop.worker = .reading batch [] false := by
    simp [World.pop, ListingWorkerState.popBatch, hpop]
  have hnodup : (batch.requests.map ListingRequest.paneId ++ rest.map ListingRequest.paneId).Nodup := by
    simpa using (hperm.map ListingRequest.paneId).symm.nodup h.single
  obtain ⟨hbatch, hrest, hdisjoint⟩ := nodup_append'.mp hnodup
  have hold : ∀ request ∈ batch.requests, request ∈ w.state.pending := fun request hr =>
    hperm.mem_iff.mp (mem_append_left _ hr)
  refine { keys := ?_, latest := h.latest, distinct := h.distinct, drawn := h.drawn, pending := ?_, single := ?_,
           reading := ?_, running := ?_, history := h.history, results := ?_, entries := ?_ }
  · exact h.keys
  · rw [hstate]
    exact fun request hr => h.pending request (hperm.mem_iff.mp (mem_append_right _ hr))
  · rw [hstate]
    exact hrest
  · rw [hstate, hworker]
    rintro _ _ _ ⟨rfl, rfl, rfl⟩
    refine ⟨hbatch, fun request hr => ⟨(h.latest _ _ (h.pending request (hold request hr)).1).2, fun hp => ?_⟩,
      fun _ => ⟨rfl, fun request hr => (h.pending request (hold request hr)).2⟩⟩
    grind [mem_map_of_mem]
  · rw [hworker]
    nofun
  · exact h.results
  · exact h.entries

theorem Sound.continues (h : w.Sound) {batch : ListingBatch P} {entries entries' : List E} {opened : Bool}
    (hw : w.worker = .reading batch entries opened) :
    ({ w with worker := .reading batch entries' true } : World P E).Sound :=
  { h with
    reading := by
      grind -linarith [h.reading]
    running := nofun }

theorem Sound.waits (h : w.Sound) : ({ w with worker := .waiting } : World P E).Sound :=
  { h with reading := nofun, running := nofun }

section Publish

variable [DecidableEq P] {batch : ListingBatch P} {pendingEntries : List E} {opened : Bool}
  {events : List (DirectoryListerEvent P E)}

omit [DecidableEq P] in
theorem Sound.mem_targets (h : w.Sound) (hw : w.worker = .reading batch pendingEntries opened)
    {request : ListingRequest P} (hr : request ∈ w.scheduled) :
    request.target ∈ batch.requests.map ListingRequest.target ↔ request ∈ batch.requests := by
  grind +splitImp +splitIndPred [h.unique_target]

theorem Sound.publish_cases (h : w.Sound) (hw : w.worker = .reading batch pendingEntries opened)
    (hs : w.state.shutdown = false) (events : List (DirectoryListerEvent P E)) (p : PaneId) :
    (∃ request ∈ batch.requests, w.latest p = some request ∧
      (w.state.publishBatchIfCurrent batch events).2.resultsByPane.find p =
        some (appendListingResultsForPane ((w.state.resultsByPane.find p).getD [])
          (retargetListingEvents events request))) ∨ (∀ request ∈ batch.requests, w.latest p ≠ some request) ∧
      (w.state.publishBatchIfCurrent batch events).2.resultsByPane.find p = w.state.resultsByPane.find p := by
  obtain ⟨hn, hm, -⟩ := h.reading _ _ _ hw
  have hresults := publish_results hn events w.state p
  grind [publishBatchIfCurrent, h.isCurrent_iff, h.latest]

/-- The events must leave the entries queued before them in place, at least where there are any. -/
theorem Sound.publish (h : w.Sound) (hw : w.worker = .reading batch pendingEntries opened) {worker : Worker P E}
    (hworker : worker = .waiting ∨ ∃ entries, worker = .reading batch entries true)
    (happend : ∀ request ∈ batch.requests, ∀ results : List (DirectoryListerEvent P E),
      w.drained request.target ++ results.flatMap DirectoryListerEvent.entries = w.published request.target →
      (appendListingResultsForPane results (retargetListingEvents events request)).flatMap
        DirectoryListerEvent.entries =
      results.flatMap DirectoryListerEvent.entries ++ events.flatMap DirectoryListerEvent.entries) :
    (w.publish batch events worker).Sound := by
  obtain ⟨hpending, hlatest, hshutdown⟩ := publishBatchIfCurrent_frame w.state batch events
  obtain ⟨hn, hm, -⟩ := h.reading _ _ _ hw
  refine { keys := ?_, latest := h.latest, distinct := h.distinct, drawn := h.drawn, pending := ?_, single := ?_,
           reading := ?_, running := ?_, history := ?_, results := ?_, entries := ?_ }
  · exact fun p => hlatest ▸ h.keys p
  · intro request hr
    replace hr : request ∈ w.state.pending := hpending ▸ hr
    obtain ⟨hl, hnone⟩ := h.pending request hr
    grind [h.mem_targets, h.latest, World.publish]
  · exact hpending ▸ h.single
  · grind -linarith [World.publish]
  · obtain rfl | ⟨es', rfl⟩ := hworker <;> exact nofun
  · grind [h.history, World.publish]
  · intro p results hf
    by_cases hs : w.state.shutdown
    · exact h.results p results (by simpa [World.publish, publishBatchIfCurrent, hs] using hf)
    · obtain ⟨request, hr, hl, he⟩ | ⟨-, he⟩ := h.publish_cases hw (by simpa using hs) events p
      · refine ⟨request, hl, ?_⟩
        obtain rfl := Option.some.inj (he.symm.trans hf)
        refine appendListingResultsForPane_target fun event hev => ?_
        cases hfind : w.state.resultsByPane.find p with
        | none => simp [hfind] at hev
        | some old => grind +splitImp +splitIndPred
      · exact h.results p results (he ▸ hf)
  · intro hs p request hl
    replace hs : w.state.shutdown = false := hshutdown ▸ hs
    have hold := h.entries hs p request hl
    have hsched := (h.latest p request hl).2
    obtain ⟨other, hr, ho, he⟩ | ⟨hout, he⟩ := h.publish_cases hw hs events p
    · grind [World.publish]
    grind [h.mem_targets, World.publish]

theorem Sound.dispatch (h : w.Sound) (hw : w.worker = .reading batch pendingEntries opened)
    (hne : pendingEntries ≠ []) (target : EventTarget P) :
    (w.publish batch [.itemsAdded target pendingEntries] (.reading batch [] opened)).Sound := by
  cases opened with
  | false => exact absurd ((h.reading _ _ _ hw).2.2 rfl).1 hne
  | true =>
    refine h.publish hw (.inr ⟨[], rfl⟩) fun request _ results _ => ?_
    simpa [appendListingResultsForPane, retargetListingEvents] using
      appendListingResult_entries results (mt retargetListingEvent_resets.mp id)

theorem Sound.complete (h : w.Sound) (hw : w.worker = .reading batch [] opened) (target : EventTarget P) :
    (w.publish batch [.listingCompleted target] .waiting).Sound := by
  refine h.publish hw (.inl rfl) fun request _ results _ => ?_
  simpa [appendListingResultsForPane, retargetListingEvents] using
    appendListingResult_entries results (mt retargetListingEvent_resets.mp id)

theorem Sound.fail (h : w.Sound) (hw : w.worker = .reading batch [] false) {event : DirectoryListerEvent P E}
    (he : event.IsFailure) : (w.publish batch [event] .waiting).Sound := by
  refine h.publish hw (.inl rfl) fun request hr results hres => ?_
  rw [((h.reading _ _ _ hw).2.2 rfl).2 request hr, append_eq_nil_iff] at hres
  have hreset : event.Resets := by cases event <;> trivial
  simp [appendListingResultsForPane, retargetListingEvents,
    appendListingResult_resets (retargetListingEvent_resets.mpr hreset), hres.2]

end Publish

theorem Sound.drained_results [DecidableEq P] (h : w.Sound) {request : ListingRequest P} {pane : PaneId}
    (hl : w.latest pane = some request) :
    (w.state.drainResults.1.flatten.filter fun event => event.target = request.target) =
      (w.state.resultsByPane.find pane).getD [] := by
  obtain ⟨rfl, -⟩ := h.latest pane request hl
  have hnodup : (w.state.resultsByPane.keys.mergeSort (· ≤ ·)).Nodup :=
    (mergeSort_perm _ _).symm.nodup w.state.resultsByPane.keys_nodup
  have hkey : ∀ p results, w.state.resultsByPane.find p = some results →
      ∀ event ∈ results, DirectoryListerEvent.paneId event = p := by
    intro p results hf event hev
    obtain ⟨other, ho, ht⟩ := h.results p results hf
    rw [DirectoryListerEvent.paneId, ht event hev]
    exact (h.latest p other ho).1
  rw [drainResults, flatten_filter_key hnodup hkey (k := request.paneId)
    (fun event => decide (event.target = request.target)) fun event ht => by
      rw [DirectoryListerEvent.paneId, of_decide_eq_true ht, ListingRequest.target]]
  cases hf : w.state.resultsByPane.find request.paneId with
  | none => simp
  | some results =>
    have hmem : request.paneId ∈ w.state.resultsByPane.keys.mergeSort (· ≤ ·) :=
      mem_mergeSort.mpr (Map.mem_keys.mpr ⟨results, hf⟩)
    obtain ⟨other, ho, ht⟩ := h.results _ results hf
    obtain rfl := Option.some.inj (ho.symm.trans hl)
    simpa [hmem] using ht

theorem Sound.drain [DecidableEq P] (h : w.Sound) : w.drain.Sound :=
  { h with
    history := by
      intro target hex
      by_cases hold : w.published target ≠ [] ∨ w.drained target ≠ []
      · exact h.history target hold
      · simp only [not_or, not_not] at hold
        have hne : (w.state.drainResults.1.flatten.filter fun event => event.target = target) ≠ [] := by
          intro hnil
          simp only [World.drain, hold.1, hold.2, hnil] at hex
          simp at hex
        obtain ⟨event, hev⟩ := exists_mem_of_ne_nil _ hne
        simp only [mem_filter, mem_flatten, drainResults, mem_filterMap, decide_eq_true_eq] at hev
        obtain ⟨⟨results, ⟨p, -, hf⟩, hm⟩, ht⟩ := hev
        obtain ⟨request, hl, hall⟩ := h.results p results hf
        exact ⟨request, (h.latest p request hl).2, (hall event hm).symm.trans ht⟩
    results := by
      intro p results hf
      simp [World.drain, drainResults] at hf
    entries := by
      intro hs p request hl
      refine Eq.trans ?_ (h.entries hs p request hl)
      simp only [World.drain, h.drained_results hl]
      simp [drainResults] }

theorem Sound.drop (h : w.Sound) : ({ w with state := w.state.drop } : World P E).Sound :=
  { h with
    pending := fun request hr => by simp [ListingWorkerState.drop] at hr
    single := .nil
    reading := fun batch entries opened hw => by
      obtain ⟨hn, hm, ho⟩ := h.reading batch entries opened hw
      exact ⟨hn, fun request hr => ⟨(hm request hr).1, not_mem_nil⟩, ho⟩
    results := fun p results hf => by simp [ListingWorkerState.drop] at hf
    entries := fun hs => by simp [ListingWorkerState.drop] at hs }

theorem Sound.step [DecidableEq P] {v : World P E} (h : w.Sound) (hs : Step w v) : v.Sound := by
  grind -linarith +splitImp +splitIndPred [draw, load, schedule, scheduleOrCached, cancel, pop, h.continues, dispatch, complete, fail, h.waits, drain, drop]

theorem Sound.run [DecidableEq P] (h : Relation.ReflTransGen Step (new : World P E) w) : w.Sound := by
  induction h with
  | refl => exact sound_new
  | tail _ hs ih => exact ih.step hs

end World

/-- The protocol of the listing worker, in every state any interleaving of the steps can lead to. -/
theorem listing_worker_protocol [DecidableEq P] {w : World P E} (h : Relation.ReflTransGen Step World.new w) :
    (∀ request ∈ w.state.pending, w.latest request.paneId = some request) ∧
    (∀ pane, (w.state.pending.filter fun request => request.paneId = pane).length ≤ 1) ∧
    (w.state.pending ≠ [] → ∃ batch, w.state.popBatch.1 = some batch ∧ batch.requests ≠ []) ∧ w.worker ≠ .panicked ∧
    (∀ results ∈ w.state.drainResults.1, ∃ request, w.latest request.paneId = some request ∧
      ∀ event ∈ results, event.target = request.target) ∧
    (w.state.shutdown = false → ∀ request, w.latest request.paneId = some request →
      w.drain.drained request.target = w.published request.target) := by
  have hsound := World.Sound.run h
  refine ⟨fun request hr => (hsound.pending request hr).1, fun pane => ?_, fun hne => ?_, hsound.running,
    fun results hr => ?_, fun hs request hl => ?_⟩
  · have hcount := nodup_iff_count_le_one.mp hsound.single pane
    rwa [List.count, countP_map, countP_eq_length_filter] at hcount
  · obtain ⟨batch, rest, hpop, hb, -⟩ := hsound.popBatch hne
    exact ⟨batch, by rw [popBatch, hpop], hb⟩
  · grind -linarith [drainResults, hsound.results, hsound.latest]
  grind +splitImp +splitIndPred [World.drain, hsound.drained_results]

theorem listing_worker_protocol_shared :
    let first : ListingRequest String := ⟨1, 0, 1, "/home", .load⟩
    let second : ListingRequest String := ⟨2, 0, 1, "/home", .load⟩
    let third : ListingRequest String := ⟨1, 1, 2, "/tmp", .load⟩
    let requested : World String Nat := ((World.new.load first).load second).load third
    let waiting := (requested.handOver first (requested.state.schedule first))
    let shared := (waiting.handOver second (waiting.state.schedule second)).pop
    let moved := shared.handOver third (shared.state.schedule third)
    (∀ request ∈ moved.state.pending, moved.latest request.paneId = some request) ∧ moved.worker ≠ .panicked := by
  intro first second third requested waiting shared moved
  have hfirst : Step (World.new : World String Nat) (World.new.load first) := .load rfl
  have hsecond : Step (World.new.load first : World String Nat) ((World.new.load first).load second) := .load rfl
  have hthird : Step ((World.new.load first).load second) requested := .load rfl
  have hwaiting : Step requested waiting := .schedule (by decide) rfl
  have hboth : Step waiting (waiting.handOver second (waiting.state.schedule second)) := .schedule (by decide) rfl
  have hshared : Step (waiting.handOver second (waiting.state.schedule second)) shared := .pop rfl (by decide) rfl
  have hmoved : Step shared moved := .schedule (by decide) rfl
  have hrun := ((((((Relation.ReflTransGen.single hfirst).tail hsecond).tail hthird).tail hwaiting).tail hboth).tail
    hshared).tail hmoved
  have h := listing_worker_protocol hrun
  exact ⟨h.1, h.2.2.2.1⟩

end TensorDE.Files
