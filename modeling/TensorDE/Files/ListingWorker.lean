import TensorDE.Lib.Maps
import TensorDE.Lib.Trace
import TensorDE.Files.Events

set_option linter.dupNamespace false

namespace TensorDE.Files

open Maps List

variable {P E : Type}

structure ListingBatch (P : Type) where
  path : P
  mode : LoadMode
  requests : List (ListingRequest P)

/-- The state behind the worker's lock. The cache and the result notifier are not part of it: what the
cache answers is an argument of `scheduleOrCached`. -/
structure ListingWorkerState (P E : Type) where
  pending : List (ListingRequest P)
  latestRequestByPane : Map PaneId ListingRequestKey
  resultsByPane : Map PaneId (List (DirectoryListerEvent P E))
  shutdown : Bool

def retargetListingEvent (target : ListingRequest P) : DirectoryListerEvent P E → DirectoryListerEvent P E
  | .loadingStarted _ _ => .loadingStarted target.target target.mode
  | .itemsAdded _ entries => .itemsAdded target.target entries
  | .itemsDeleted _ paths => .itemsDeleted target.target paths
  | .itemsRefreshed _ pairs => .itemsRefreshed target.target pairs
  | .listingRefreshed _ entries => .listingRefreshed target.target entries
  | .listingCompleted _ => .listingCompleted target.target
  | .currentDirectoryRemoved _ => .currentDirectoryRemoved target.target
  | .error _ message => .error target.target message
  | .networkAuthRequired _ uri message username domain =>
    .networkAuthRequired target.target uri message username domain

def retargetListingEvents (events : List (DirectoryListerEvent P E)) (target : ListingRequest P) :
    List (DirectoryListerEvent P E) :=
  events.map (retargetListingEvent target)

section Append

variable [DecidableEq P] (results : List (DirectoryListerEvent P E))

/-- Added items join the last event when that one adds items for the same request. -/
def appendItemsAdded (target : EventTarget P) (entries : List E) :
    List (DirectoryListerEvent P E) :=
  match results.getLast? with
  | some (.itemsAdded last lastEntries) =>
    if last = target then results.dropLast ++ [.itemsAdded last (lastEntries ++ entries)]
    else results ++ [.itemsAdded target entries]
  | _ => results ++ [.itemsAdded target entries]

def appendListingResult :
    DirectoryListerEvent P E → List (DirectoryListerEvent P E)
  | .listingRefreshed target entries => [.listingRefreshed target entries]
  | .currentDirectoryRemoved target => [.currentDirectoryRemoved target]
  | .error target message => [.error target message]
  | .networkAuthRequired target uri message username domain =>
    [.networkAuthRequired target uri message username domain]
  | .itemsAdded target entries => if entries.isEmpty then results else appendItemsAdded results target entries
  | .itemsDeleted target paths => if paths.isEmpty then results else results ++ [.itemsDeleted target paths]
  | .itemsRefreshed target pairs => if pairs.isEmpty then results else results ++ [.itemsRefreshed target pairs]
  | .loadingStarted target mode => results ++ [.loadingStarted target mode]
  | .listingCompleted target => results ++ [.listingCompleted target]

def appendListingResultsForPane (results events : List (DirectoryListerEvent P E)) :
    List (DirectoryListerEvent P E) :=
  events.foldl appendListingResult results

end Append

namespace ListingWorkerState

def new : ListingWorkerState P E := ⟨[], Map.empty, Map.empty, false⟩

variable (s : ListingWorkerState P E)

/-- What `schedule` and a cache hit do alike: the pane's earlier request is forgotten. -/
def supersede (request : ListingRequest P) : ListingWorkerState P E :=
  { s with
    pending := s.pending.filter fun pending => pending.paneId ≠ request.paneId
    latestRequestByPane := s.latestRequestByPane.insert request.paneId request.key
    resultsByPane := s.resultsByPane.erase request.paneId }

def schedule (request : ListingRequest P) : ListingWorkerState P E :=
  { s.supersede request with pending := (s.supersede request).pending ++ [request] }

def cancelPane (paneId : PaneId) : ListingWorkerState P E :=
  { s with
    pending := s.pending.filter fun pending => pending.paneId ≠ paneId
    latestRequestByPane := s.latestRequestByPane.erase paneId
    resultsByPane := s.resultsByPane.erase paneId }

/-- `fresh` is what the cache holds for the path, if that still matches the directory. -/
def cachedEventsFor (request : ListingRequest P) (fresh : Option (List E)) :
    Option (List (DirectoryListerEvent P E)) :=
  if request.mode ≠ .load then none
  else fresh.map fun entries => [.listingRefreshed request.target entries, .listingCompleted request.target]

def scheduleOrCached (request : ListingRequest P) (fresh : Option (List E)) :
    Option (List (DirectoryListerEvent P E)) × ListingWorkerState P E :=
  match cachedEventsFor request fresh with
  | some events => (some events, s.supersede request)
  | none => (none, s.schedule request)

def isCurrent (request : ListingRequest P) : Bool :=
  s.latestRequestByPane.find request.paneId = some request.key

section Batch

variable [DecidableEq P]

/-- The scan behind the leader of a batch: the requests that join it, and those that stay. A request
that is no longer current is dropped. -/
def gather (current : ListingRequest P → Bool) (path : P) (mode : LoadMode) :
    List (ListingRequest P) → List (ListingRequest P) × List (ListingRequest P)
  | [] => ([], [])
  | request :: rest =>
    if !current request then gather current path mode rest
    else if request.path = path ∧ request.mode = mode then
      (request :: (gather current path mode rest).1, (gather current path mode rest).2)
    else ((gather current path mode rest).1, request :: (gather current path mode rest).2)

def popFrom (current : ListingRequest P → Bool) :
    List (ListingRequest P) → Option (ListingBatch P) × List (ListingRequest P)
  | [] => (none, [])
  | leader :: rest =>
    if !current leader then popFrom current rest
    else
      (some ⟨leader.path, leader.mode, leader :: (gather current leader.path leader.mode rest).1⟩,
        (gather current leader.path leader.mode rest).2)

variable (s : ListingWorkerState P E)

def popBatch : Option (ListingBatch P) × ListingWorkerState P E :=
  ((popFrom s.isCurrent s.pending).1, { s with pending := (popFrom s.isCurrent s.pending).2 })

def publishFor (events : List (DirectoryListerEvent P E))
    (request : ListingRequest P) : ListingWorkerState P E :=
  if s.isCurrent request then
    { s with
      resultsByPane := s.resultsByPane.insert request.paneId
        (appendListingResultsForPane ((s.resultsByPane.find request.paneId).getD [])
          (retargetListingEvents events request)) }
  else s

/-- The flag says whether some request of the batch was current. -/
def publishBatchIfCurrent (batch : ListingBatch P)
    (events : List (DirectoryListerEvent P E)) : Bool × ListingWorkerState P E :=
  if s.shutdown then (false, s)
  else (batch.requests.any s.isCurrent, batch.requests.foldl (fun s r => s.publishFor events r) s)

end Batch

def drainResults :
    List (List (DirectoryListerEvent P E)) × ListingWorkerState P E :=
  ((s.resultsByPane.keys.mergeSort (· ≤ ·)).filterMap s.resultsByPane.find, { s with resultsByPane := Map.empty })

/-- What `Drop for ListingWorker` does before it joins the worker thread. -/
def drop : ListingWorkerState P E :=
  { s with shutdown := true, pending := [], resultsByPane := Map.empty }

def batchCancelled (batch : ListingBatch P) : Bool :=
  s.shutdown || !batch.requests.any s.isCurrent

end ListingWorkerState

/-- The events that replace what is queued for the pane. -/
def DirectoryListerEvent.Resets : DirectoryListerEvent P E → Prop
  | .listingRefreshed _ _ | .currentDirectoryRemoved _ | .error _ _ | .networkAuthRequired _ _ _ _ _ => True
  | _ => False

variable (request : ListingRequest P) (event : DirectoryListerEvent P E)

@[simp] theorem retargetListingEvent_target : (retargetListingEvent request event).target = request.target := by
  cases event <;> rfl

@[simp] theorem retargetListingEvent_entries : (retargetListingEvent request event).entries = event.entries := by
  cases event <;> rfl

theorem retargetListingEvent_resets {request : ListingRequest P} {event : DirectoryListerEvent P E} :
    (retargetListingEvent request event).Resets ↔ event.Resets := by
  cases event <;> rfl

section Append

variable [DecidableEq P] {results : List (DirectoryListerEvent P E)}

theorem appendItemsAdded_cases (results : List (DirectoryListerEvent P E)) (target : EventTarget P) (entries : List E) :
    appendItemsAdded results target entries = results ++ [DirectoryListerEvent.itemsAdded target entries] ∨
      ∃ front last, results = front ++ [DirectoryListerEvent.itemsAdded target last] ∧
        appendItemsAdded results target entries = front ++ [DirectoryListerEvent.itemsAdded target (last ++ entries)] := by
  grind [results.eq_nil_or_concat', appendItemsAdded]

theorem appendItemsAdded_entries (results : List (DirectoryListerEvent P E)) (target : EventTarget P)
    (entries : List E) : (appendItemsAdded results target entries).flatMap DirectoryListerEvent.entries =
      results.flatMap DirectoryListerEvent.entries ++ entries := by
  grind [appendItemsAdded_cases, DirectoryListerEvent.entries]

variable {target : EventTarget P}

theorem appendItemsAdded_target {entries : List E} (h : ∀ event ∈ results, event.target = target) :
    ∀ event ∈ appendItemsAdded results target entries, event.target = target := by
  grind [appendItemsAdded_cases, DirectoryListerEvent.target]

variable {event : DirectoryListerEvent P E}

theorem appendListingResult_entries (results : List (DirectoryListerEvent P E)) (h : ¬ event.Resets) :
    (appendListingResult results event).flatMap DirectoryListerEvent.entries =
      results.flatMap DirectoryListerEvent.entries ++ event.entries := by
  cases event with
  | itemsAdded target entries =>
    grind -linarith [appendListingResult, DirectoryListerEvent.entries, appendItemsAdded_entries]
  | itemsDeleted target paths => grind -linarith [appendListingResult, DirectoryListerEvent.entries]
  | itemsRefreshed target pairs => grind -linarith [appendListingResult, DirectoryListerEvent.entries]
  | loadingStarted => simp [appendListingResult]
  | listingCompleted => simp [appendListingResult]
  | _ => exact absurd trivial h

theorem appendListingResult_resets (h : event.Resets) : appendListingResult results event = [event] := by
  cases event <;> first | rfl | exact h.elim

theorem appendListingResult_target (h : ∀ e ∈ results, e.target = target) (he : event.target = target) :
    ∀ e ∈ appendListingResult results event, e.target = target := by
  have hone : ∀ e ∈ results ++ [event], e.target = target := by
    simpa [or_imp, forall_and, he] using h
  by_cases hr : event.Resets
  · rw [appendListingResult_resets hr]
    simpa using he
  · cases event with
    | itemsAdded last entries =>
      obtain rfl : last = target := he
      grind -linarith [appendListingResult, appendItemsAdded_target]
    | itemsDeleted last paths => grind -linarith [appendListingResult]
    | itemsRefreshed last pairs => grind -linarith [appendListingResult]
    | loadingStarted => exact hone
    | listingCompleted => exact hone
    | _ => exact absurd trivial hr

theorem appendListingResultsForPane_target {request : ListingRequest P}
    {events : List (DirectoryListerEvent P E)} (h : ∀ e ∈ results, e.target = request.target) :
    ∀ e ∈ appendListingResultsForPane results (retargetListingEvents events request), e.target = request.target := by
  induction events generalizing results with
  | nil => exact h
  | cons event events ih =>
    exact ih (appendListingResult_target h (retargetListingEvent_target request event))

end Append

namespace ListingWorkerState

variable [DecidableEq P] {s : ListingWorkerState P E}

variable (events : List (DirectoryListerEvent P E)) (request : ListingRequest P)

@[simp] theorem publishFor_pending : (s.publishFor events request).pending = s.pending := by
  unfold publishFor
  split <;> rfl

@[simp] theorem publishFor_latest : (s.publishFor events request).latestRequestByPane = s.latestRequestByPane := by
  unfold publishFor
  split <;> rfl

@[simp] theorem publishFor_shutdown : (s.publishFor events request).shutdown = s.shutdown := by
  unfold publishFor
  split <;> rfl

theorem publishFor_isCurrent : (s.publishFor events request).isCurrent = s.isCurrent := by
  funext other
  simp [isCurrent]

theorem publishFor_results (p : PaneId) :
    (s.publishFor events request).resultsByPane.find p = if p = request.paneId ∧ s.isCurrent request then
        some (appendListingResultsForPane ((s.resultsByPane.find p).getD []) (retargetListingEvents events request))
      else s.resultsByPane.find p := by
  unfold publishFor
  by_cases hc : s.isCurrent request
  · by_cases hp : p = request.paneId
    · subst hp
      simp [hc]
    · simp [hc, hp]
  · simp [hc]

theorem foldl_publishFor_frame (requests : List (ListingRequest P))
    (s : ListingWorkerState P E) : (requests.foldl (fun s r => s.publishFor events r) s).pending = s.pending ∧
      (requests.foldl (fun s r => s.publishFor events r) s).latestRequestByPane = s.latestRequestByPane ∧
      (requests.foldl (fun s r => s.publishFor events r) s).shutdown = s.shutdown := by
  induction requests generalizing s with
  | nil => exact ⟨rfl, rfl, rfl⟩
  | cons r requests ih => simpa using ih (s.publishFor events r)

theorem publishBatchIfCurrent_frame (s : ListingWorkerState P E) (batch : ListingBatch P)
    (events : List (DirectoryListerEvent P E)) : (s.publishBatchIfCurrent batch events).2.pending = s.pending ∧
      (s.publishBatchIfCurrent batch events).2.latestRequestByPane = s.latestRequestByPane ∧
      (s.publishBatchIfCurrent batch events).2.shutdown = s.shutdown := by
  unfold publishBatchIfCurrent
  split
  · exact ⟨rfl, rfl, rfl⟩
  · exact foldl_publishFor_frame events batch.requests s

variable {requests : List (ListingRequest P)}

/-- The requests of a batch are of different panes, so each pane sees one append at most. -/
theorem publish_results (hn : (requests.map ListingRequest.paneId).Nodup)
    (events : List (DirectoryListerEvent P E)) (s : ListingWorkerState P E) (p : PaneId) :
    (requests.foldl (fun s r => s.publishFor events r) s).resultsByPane.find p =
      match requests.find? fun r => r.paneId = p ∧ s.isCurrent r with
      | some r => some (appendListingResultsForPane ((s.resultsByPane.find p).getD [])
          (retargetListingEvents events r))
      | none => s.resultsByPane.find p := by
  induction requests generalizing s with
  | nil => rfl
  | cons r requests ih =>
    simp only [map_cons, nodup_cons] at hn
    rw [foldl_cons, ih hn.2, publishFor_isCurrent, publishFor_results]
    grind

variable {current : ListingRequest P → Bool}

theorem gather_perm (path : P) (mode : LoadMode) (h : ∀ r ∈ requests, current r) :
    ((gather current path mode requests).1 ++ (gather current path mode requests).2).Perm requests := by
  induction requests with
  | nil => exact .nil
  | cons r requests ih => grind [gather]

theorem popFrom_perm (hne : requests ≠ []) (h : ∀ r ∈ requests, current r) :
    ∃ batch rest, popFrom current requests = (some batch, rest) ∧ batch.requests ≠ [] ∧
      (batch.requests ++ rest).Perm requests := by
  cases requests with
  | nil => exact absurd rfl hne
  | cons leader requests =>
    simp only [mem_cons, forall_eq_or_imp] at h
    refine ⟨_, _, by simp [popFrom, h.1]; exact ⟨rfl, rfl⟩, by simp, ?_⟩
    grind [gather_perm]

end ListingWorkerState

end TensorDE.Files
