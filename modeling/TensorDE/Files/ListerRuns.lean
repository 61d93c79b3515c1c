import TensorDE.Files.Lister
import TensorDE.Files.ModelContent
import TensorDE.Files.ModelRuns

set_option linter.dupNamespace false

namespace TensorDE.Files

open DirectoryModel Trace List

/-- A load request, the batches that came for it, and the deltas that were delivered since it started. -/
structure Request where
  target : EventTarget Path
  batches : List (List EntryData)
  completed : Bool
  deltas : List ListerEvent

def Request.start (target : EventTarget Path) : Request := ⟨target, [], false, []⟩

/-- No name comes twice in the listing. -/
def Request.Distinct (r : Request) : Prop := (r.batches.flatten.map (·.name)).Nodup

/-- A pane with what is on its way to it: the events drained and not yet delivered, and the most recent request. -/
structure Session where
  pane : PaneState
  drawn : List ListerEvent
  request : Option Request

inductive Action where
  | load (path : Path) (generation : Generation)
  | reload
  | drain (readEntrySync : Path → Option EntryData) (errors : List String) (deltas : List ClassifiedWatcherDelta)
  | deliver (event : ListerEvent)

namespace Session

def new (places : Places) (id : PaneId) (currentDir : Path) : Session := ⟨.new places id currentDir, [], none⟩

def started : ListerEvent → Bool
  | .loadingStarted _ _ => true
  | _ => false

/-- The event of a request that comes to nothing. -/
def failed : ListerEvent → Bool
  | .error _ _ => true
  | .networkAuthRequired _ _ _ _ _ => true
  | .currentDirectoryRemoved _ => true
  | _ => false

/-- An event of an older request, or for another pane, generation or directory. -/
def Foreign (event target : EventTarget Path) : Prop :=
  event.requestSerial < target.requestSerial ∨ event.paneId ≠ target.paneId ∨ event.generation ≠ target.generation ∨
    event.path ≠ target.path

/-- What a delivery is in the course of the session. The events of one request come in their order, once each, and so
does each event drained. -/
inductive Notes (s : Session) (event : ListerEvent) : List ListerEvent → Option Request → Prop where
  | begins {r : Request} {mode : LoadMode} : s.request = some r → event = .loadingStarted r.target mode →
      r.batches = [] → r.completed = false → Notes s event s.drawn (some r)
  | batch {r : Request} {entries : List EntryData} : s.request = some r → event = .itemsAdded r.target entries →
      r.completed = false → Notes s event s.drawn (some { r with batches := r.batches ++ [entries] })
  | whole {r : Request} {entries : List EntryData} : s.request = some r → event = .listingRefreshed r.target entries →
      r.batches = [] → r.completed = false → Notes s event s.drawn (some { r with batches := [entries] })
  | completes {r : Request} : s.request = some r → event = .listingCompleted r.target → r.completed = false →
      Notes s event s.drawn (some { r with completed := true })
  | fails {r : Request} : s.request = some r → event.target = r.target → failed event → r.completed = false →
      Notes s event s.drawn none
  | delta : event ∈ s.drawn → started event = false →
      Notes s event (s.drawn.erase event) (s.request.map fun r => { r with deltas := r.deltas ++ [event] })
  | reloads : event ∈ s.drawn → started event →
      (∀ r, s.request = some r → r.target.requestSerial < event.target.requestSerial) →
      Notes s event (s.drawn.erase event) (some (.start event.target))
  | lapses {r : Request} : event ∈ s.drawn → started event → s.request = some r →
      event.target.requestSerial < r.target.requestSerial → Notes s event (s.drawn.erase event) (some r)
  | passes : (∀ r, s.request = some r → Foreign event.target r.target) → Notes s event s.drawn s.request

inductive Step (places : Places) (s : Session) : Action → Session → Prop where
  | load (path : Path) (generation : Generation) :
      Step places s (.load path generation)
        ⟨(s.pane.load path generation).2, s.drawn, some (.start (s.pane.load path generation).1.target)⟩
  | reload : Step places s .reload ⟨s.pane.reload.2, s.drawn, some (.start s.pane.reload.1.target)⟩
  | drain (readEntrySync : Path → Option EntryData) (errors : List String) (deltas : List ClassifiedWatcherDelta) :
      Step places s (.drain readEntrySync errors deltas)
        { s with
          pane := { s.pane with lister := (s.pane.lister.drainWatcherEvents readEntrySync errors deltas).2 }
          drawn := s.drawn ++ (s.pane.lister.drainWatcherEvents readEntrySync errors deltas).1 }
  | deliver {event : ListerEvent} {pane : PaneState} {drawn : List ListerEvent} {request : Option Request} :
      s.pane.applyListerEvent places event = some pane → Notes s event drawn request →
      Step places s (.deliver event) ⟨pane, drawn, request⟩

/-- No serial is drawn between a request and its completion, nor while an event drained before is on its way. -/
def Undisturbed (s : Session) : Action → Prop
  | .load _ _ => s.drawn = []
  | .reload => s.drawn = []
  | .drain _ errors deltas => errors.length + deltas.length = 0 ∨
    errors.length + deltas.length = 1 ∧ s.drawn = [] ∧ ∀ r, s.request = some r → r.completed
  | .deliver _ => True

def applyDelta (places : Places) (m : DirectoryModel) : ListerEvent → Option DirectoryModel
  | .itemsAdded _ entries => (m.applyItemsAdded entries).map Prod.snd
  | .itemsDeleted _ paths => some (m.applyItemsDeleted places paths).2
  | .itemsRefreshed _ pairs => (m.applyItemsRefreshed places pairs).map Prod.snd
  | _ => some m

def Holds (m : DirectoryModel) (r : Request) : Prop :=
  m.directory = r.target.path ∧ m.content.Perm (r.batches.flatten.map EntryData.unmeasured)

variable {places : Places}

section Apply

variable {l : DirectoryLister} {m : DirectoryModel} {p pane : PaneState} {event : ListerEvent}

theorem matchesTarget_iff {paneId : PaneId} {generation : Generation} {path : Path} :
    event.matchesTarget paneId generation path ↔
      event.target.paneId = paneId ∧ event.target.generation = generation ∧ event.target.path = path := by
  exact decide_eq_true_iff

/-- An event touches nothing of the lister but its active listing. -/
def SameTarget (l l' : DirectoryLister) : Prop := l' = { l with activeListing := l'.activeListing }

theorem sameTarget_clear (l : DirectoryLister) (serial : RequestSerial) :
    SameTarget l (l.clearActiveListingForSerial serial) := by
  unfold DirectoryLister.clearActiveListingForSerial
  split <;> rfl

theorem sameTarget_dropOvertaken (l : DirectoryLister) : SameTarget l l.dropOvertaken := by
  unfold DirectoryLister.dropOvertaken
  split <;> rfl

theorem SameTarget.trans {l l' l'' : DirectoryLister} (h : SameTarget l l') (h' : SameTarget l' l'') : SameTarget l l'' := by
  rw [SameTarget, h', h]

/-- Whatever the event, it can be applied, and the model stays in shape. -/
theorem dispatch_keeps (places : Places) (l : DirectoryLister) (hs : m.Stable) (ht : m.Traced) (event : ListerEvent) :
    ∃ r, l.dispatch places m event = some r ∧ SameTarget l r.2.1 ∧ r.2.2.Stable ∧ r.2.2.Traced := by
  cases event with
  | loadingStarted target mode => exact ⟨_, rfl, rfl, hs, ht⟩
  | currentDirectoryRemoved target => exact ⟨_, rfl, sameTarget_clear _ _, hs, ht⟩
  | error target message => exact ⟨_, rfl, sameTarget_clear _ _, hs, ht⟩
  | networkAuthRequired target uri message username domain => exact ⟨_, rfl, sameTarget_clear _ _, hs, ht⟩
  | itemsAdded target entries =>
    have hreplaced := hs.replaceListing places target.path entries
    have htraced := ht.replaceListing hs places target.path entries
    rw [DirectoryLister.dispatch]
    split
    · exact ⟨_, rfl, rfl, hreplaced, htraced⟩
    · split
      · exact ⟨_, rfl, rfl, hreplaced, htraced⟩
      · obtain ⟨r, hr, hstable⟩ := hs.applyItemsAdded entries
        exact ⟨(r.1, l, r.2), by rw [hr, Option.map_some], rfl, hstable, ht.applyItemsAdded hs hr⟩
  | itemsDeleted target paths =>
    exact ⟨_, rfl, rfl, hs.applyItemsDeleted places paths, ht.applyItemsDeleted places paths⟩
  | itemsRefreshed target pairs =>
    obtain ⟨r, hr, hstable⟩ := hs.applyItemsRefreshed places pairs
    exact ⟨(r.1, l, r.2), by rw [DirectoryLister.dispatch, hr, Option.map_some], rfl, hstable,
      ht.applyItemsRefreshed hs hr⟩
  | listingRefreshed target entries =>
    exact ⟨_, rfl, sameTarget_clear _ _, hs.replaceListing places target.path entries,
      ht.replaceListing hs places target.path entries⟩
  | listingCompleted target =>
    rw [DirectoryLister.dispatch]
    split
    · grind [sameTarget_clear, hs.clearForDirectory, ht.clearForDirectory]
    grind [sameTarget_clear]

theorem applyEventToModel_keeps (places : Places) (l : DirectoryLister) (hs : m.Stable) (ht : m.Traced)
    (event : ListerEvent) :
    ∃ r, l.applyEventToModel places event m = some r ∧ SameTarget l r.2.1 ∧ r.2.2.Stable ∧ r.2.2.Traced := by
  unfold DirectoryLister.applyEventToModel
  split
  · exact ⟨_, rfl, sameTarget_dropOvertaken l, hs, ht⟩
  · obtain ⟨r, hr, hsame, hstable, htraced⟩ := dispatch_keeps places l.dropOvertaken hs ht event
    exact ⟨r, hr, (sameTarget_dropOvertaken l).trans hsame, hstable, htraced⟩

def AtTarget (p : PaneState) : Prop :=
  p.lister.paneId = p.id ∧ p.lister.generation = p.generation ∧ p.lister.path = p.currentDir

theorem applyListerEvent_keeps (places : Places) (p : PaneState) (hs : p.model.Stable) (ht : p.model.Traced)
    (event : ListerEvent) : ∃ pane, p.applyListerEvent places event = some pane ∧ SameTarget p.lister pane.lister ∧
      pane = { p with lister := pane.lister, model := pane.model } ∧ pane.model.Stable ∧ pane.model.Traced := by
  unfold PaneState.applyListerEvent
  split
  · obtain ⟨r, hr, hsame, hstable, htraced⟩ := applyEventToModel_keeps places p.lister hs ht event
    grind
  · exact ⟨p, rfl, rfl, rfl, hs, ht⟩

/-- An event of an older request, or for another pane, generation or directory, does not change the model. -/
theorem applyListerEvent_foreign (places : Places) (p : PaneState) (event : ListerEvent) {target : EventTarget Path}
    (hpane : target.paneId = p.id) (hgeneration : target.generation = p.generation) (hpath : target.path = p.currentDir)
    (hserial : target.requestSerial ≤ p.lister.requestSerial) (hf : Foreign event.target target) :
    p.applyListerEvent places event = some p ∨
      p.applyListerEvent places event = some { p with lister := p.lister.dropOvertaken } := by
  unfold PaneState.applyListerEvent
  split
  · rename_i hmatches
    obtain ⟨hid, hgen, hdir⟩ := matchesTarget_iff.mp hmatches
    obtain hold | hother | hother | hother := hf
    · right
      have hlt : event.requestSerial < p.lister.requestSerial := Nat.lt_of_lt_of_le hold hserial
      rw [DirectoryLister.applyEventToModel, if_pos hlt]
      rfl
    · exact absurd (hid.trans hpane.symm) hother
    · exact absurd (hgen.trans hgeneration.symm) hother
    · exact absurd (hdir.trans hpath.symm) hother
  · exact .inl rfl

end Apply

section Invariant

/-- What `drain_watcher_events` gives out. -/
def Drained : ListerEvent → Prop
  | .itemsAdded _ _ => True
  | .itemsDeleted _ _ => True
  | .itemsRefreshed _ _ => True
  | .loadingStarted _ _ => True
  | .currentDirectoryRemoved _ => True
  | .error _ _ => True
  | _ => False

/-- A request whose completion is not there yet. Its serial is the last one drawn. -/
structure Waiting (s : Session) (r : Request) : Prop where
  target : r.target = s.pane.lister.target
  deltas : r.deltas = []
  drawn : s.drawn = []
  active : ∀ listing, s.pane.lister.activeListing = some listing → listing.requestSerial = r.target.requestSerial
  waits : s.pane.lister.activeListing = some ⟨r.target.requestSerial, false⟩ ↔ r.batches = []
  place : r.batches ≠ [] → s.pane.model.directory = r.target.path
  content : r.batches ≠ [] → r.Distinct → s.pane.model.content.Perm (r.batches.flatten.map EntryData.unmeasured)

structure Done (places : Places) (s : Session) (r : Request) : Prop where
  target : r.target = { s.pane.lister.target with requestSerial := r.target.requestSerial }
  serial : r.target.requestSerial ≤ s.pane.lister.requestSerial
  active : s.pane.lister.activeListing = none
  place : s.pane.model.directory = r.target.path
  content : r.Distinct → ∃ m, Holds m r ∧ r.deltas.foldlM (applyDelta places) m = some s.pane.model

structure Inv (places : Places) (s : Session) : Prop where
  stable : s.pane.model.Stable
  traced : s.pane.model.Traced
  atTarget : AtTarget s.pane
  drawn : s.drawn = [] ∨ ∃ e, s.drawn = [e] ∧ e.target = s.pane.lister.target ∧ Drained e
  waiting : ∀ r, s.request = some r → r.completed = false → Waiting s r
  done : ∀ r, s.request = some r → r.completed → Done places s r

theorem inv_new (id : PaneId) (currentDir : Path) : Inv places (new places id currentDir) where
  stable := stable_forDirectory currentDir
  traced := traced_forDirectory currentDir
  atTarget := ⟨rfl, rfl, rfl⟩
  drawn := .inl rfl
  waiting _ hr := nomatch hr
  done _ hr := nomatch hr

variable {s s' : Session} {r : Request} {event : ListerEvent} {p : PaneState}

variable {l : DirectoryLister}

theorem dropOvertaken_of_current (h : ∀ listing, l.activeListing = some listing → listing.requestSerial = l.requestSerial) : l.dropOvertaken = l := by
  unfold DirectoryLister.dropOvertaken
  split
  · rename_i hany
    cases ha : l.activeListing with
    | none => simp [ha] at hany
    | some listing => grind
  · rfl

theorem applyListerEvent_latest (hat : AtTarget p) (ht : event.target = p.lister.target) :
    p.applyListerEvent places event = (p.lister.dropOvertaken.dispatch places p.model event).map fun applied =>
      { p with lister := applied.2.1, model := applied.2.2 } := by
  have hmatches : event.matchesTarget p.id p.generation p.currentDir := by
    refine matchesTarget_iff.mpr ?_
    rw [ht]
    exact hat
  have hserial : ¬event.requestSerial < p.lister.requestSerial := by
    rw [DirectoryListerEvent.requestSerial, ht]
    exact Nat.lt_irrefl _
  grind [PaneState.applyListerEvent, DirectoryLister.applyEventToModel]

theorem applyListerEvent_current (hat : AtTarget p) (ht : event.target = p.lister.target)
    (hd : p.lister.dropOvertaken = p.lister) :
    p.applyListerEvent places event = (p.lister.dispatch places p.model event).map fun applied =>
      { p with lister := applied.2.1, model := applied.2.2 } := by
  rw [applyListerEvent_latest hat ht, hd]

theorem Waiting.current (h : Waiting s r) : s.pane.lister.dropOvertaken = s.pane.lister := by
  refine dropOvertaken_of_current fun listing hl => ?_
  rw [h.active listing hl, h.target]
  rfl

theorem Done.current (h : Done places s r) : s.pane.lister.dropOvertaken = s.pane.lister :=
  dropOvertaken_of_current fun listing hl => by simp [h.active] at hl

theorem loaded_waiting (mode : LoadMode) {model : DirectoryModel} {id : PaneId}
    {generation : Generation} {dir : Path} :
    Waiting ⟨⟨id, generation, dir, model, (l.loadDirectory mode).2⟩, [], some (.start (l.loadDirectory mode).1.target)⟩
      (.start (l.loadDirectory mode).1.target) where
  target := rfl
  deltas := rfl
  drawn := rfl
  active _ hl := (Option.some.inj hl) ▸ rfl
  waits := iff_of_true rfl rfl
  place hb := absurd rfl hb
  content hb := absurd rfl hb

section

variable (h : Inv places s)
include h

theorem Inv.load (hd : s.drawn = []) (path : Path) (generation : Generation) :
    Inv places ⟨(s.pane.load path generation).2, s.drawn, some (.start (s.pane.load path generation).1.target)⟩ where
  stable := h.stable
  traced := h.traced
  atTarget := ⟨rfl, rfl, rfl⟩
  drawn := .inl hd
  waiting r hr _ := by
    obtain rfl := Option.some.inj hr
    rw [hd]
    exact loaded_waiting .load
  done r hr hc := by
    obtain rfl := Option.some.inj hr
    cases hc

theorem Inv.reload (hd : s.drawn = []) :
    Inv places ⟨s.pane.reload.2, s.drawn, some (.start s.pane.reload.1.target)⟩ where
  stable := h.stable
  traced := h.traced
  atTarget := h.atTarget
  drawn := .inl hd
  waiting r hr _ := by
    obtain rfl := Option.some.inj hr
    rw [hd]
    exact loaded_waiting .reload
  done r hr hc := by
    obtain rfl := Option.some.inj hr
    cases hc

theorem Inv.draw (hc : ∀ r, s.request = some r → r.completed)
    (he : event.target = s.pane.lister.nextSerial.target) (hdr : Drained event) :
    Inv places { s with pane := { s.pane with lister := s.pane.lister.nextSerial }, drawn := [event] } where
  stable := h.stable
  traced := h.traced
  atTarget := h.atTarget
  drawn := .inr ⟨event, rfl, he, hdr⟩
  waiting r hr hopen := by
    rw [hc r hr] at hopen
    cases hopen
  done r hr hcompleted :=
    { h.done r hr hcompleted with serial := (h.done r hr hcompleted).serial.trans (Nat.le_succ _) }

theorem Inv.drain {readEntrySync : Path → Option EntryData} {errors : List String}
    {deltas : List ClassifiedWatcherDelta} (hc : s.Undisturbed (.drain readEntrySync errors deltas)) :
    Inv places { s with
      pane := { s.pane with lister := (s.pane.lister.drainWatcherEvents readEntrySync errors deltas).2 }
      drawn := s.drawn ++ (s.pane.lister.drainWatcherEvents readEntrySync errors deltas).1 } := by
  obtain hnone | ⟨hone, hd, hcompleted⟩ := hc
  · obtain ⟨he, hdeltas⟩ : errors = [] ∧ deltas = [] := by
      constructor <;> apply length_eq_zero_iff.mp <;> omega
    subst he hdeltas
    have hsame : s.drawn ++ ([] ++ []) = s.drawn := by simp
    simp only [DirectoryLister.drainWatcherEvents, DirectoryLister.drainErrors, DirectoryLister.drainDeltas, hsame]
    exact h
  · rw [hd]
    obtain ⟨message, rfl, rfl⟩ | ⟨delta, rfl, rfl⟩ : (∃ message, errors = [message] ∧ deltas = []) ∨
        ∃ delta, errors = [] ∧ deltas = [delta] := by
      cases errors with
      | nil =>
        obtain ⟨delta, hdelta⟩ := length_eq_one_iff.mp (by simpa using hone)
        exact .inr ⟨delta, rfl, hdelta⟩
      | cons message errors =>
        rw [length_cons] at hone
        refine .inl ⟨message, ?_, length_eq_zero_iff.mp (by omega)⟩
        rw [length_eq_zero_iff.mp (show errors.length = 0 by omega)]
    · exact h.draw hcompleted rfl trivial
    · refine h.draw hcompleted ?_ ?_
      · cases delta <;> rfl
      · cases delta <;> trivial

end

section Deliver

variable {pane : PaneState}

theorem Inv.frame (h : Inv places s) (hp : s.pane.applyListerEvent places event = some pane) :
    pane.model.Stable ∧ pane.model.Traced ∧ AtTarget pane ∧ pane.lister.target = s.pane.lister.target := by
  obtain ⟨pane', hp', hsame, hpane, hstable, htraced⟩ :=
    applyListerEvent_keeps places s.pane h.stable h.traced event
  obtain rfl := Option.some.inj (hp.symm.trans hp')
  have htarget : pane.lister.target = s.pane.lister.target := by
    rw [hsame]
    rfl
  refine ⟨hstable, htraced, ?_, htarget⟩
  rw [AtTarget, hpane]
  exact ⟨(congrArg EventTarget.paneId htarget).trans h.atTarget.1,
    (congrArg EventTarget.generation htarget).trans h.atTarget.2.1, (congrArg EventTarget.path htarget).trans h.atTarget.2.2⟩

theorem Waiting.dispatched (h : Waiting s r) (hi : Inv places s) (ht : event.target = r.target)
    (hp : s.pane.applyListerEvent places event = some pane) :
    ∃ applied, s.pane.lister.dispatch places s.pane.model event = some applied ∧
      pane = { s.pane with lister := applied.2.1, model := applied.2.2 } := by
  rw [applyListerEvent_current hi.atTarget (ht.trans h.target) h.current] at hp
  obtain ⟨applied, ha, rfl⟩ := Option.map_eq_some_iff.mp hp
  exact ⟨applied, ha, rfl⟩

theorem clear_of_active {l : DirectoryLister} {serial : RequestSerial}
    (h : ∀ listing, l.activeListing = some listing → listing.requestSerial = serial) :
    (l.clearActiveListingForSerial serial).activeListing = none := by
  unfold DirectoryLister.clearActiveListingForSerial
  split
  · rfl
  · cases ha : l.activeListing with
    | none => rfl
    | some listing => grind

theorem Waiting.batch (h : Waiting s r) (hi : Inv places s) {entries : List EntryData} {pane : PaneState}
    (hp : s.pane.applyListerEvent places (.itemsAdded r.target entries) = some pane) :
    Waiting ⟨pane, s.drawn, some { r with batches := r.batches ++ [entries] }⟩
      { r with batches := r.batches ++ [entries] } := by
  obtain ⟨-, -, -, htarget⟩ := hi.frame hp
  obtain ⟨applied, ha, rfl⟩ := h.dispatched hi rfl hp
  have hne : r.batches ++ [entries] ≠ [] := by simp
  rw [DirectoryLister.dispatch] at ha
  by_cases hfirst : r.batches = []
  · have hwaits : s.pane.lister.activeListingIsWaitingForFirstItems r.target.requestSerial :=
      decide_eq_true (h.waits.mpr hfirst)
    rw [if_pos hwaits] at ha
    obtain rfl := Option.some.inj ha
    refine ⟨h.target.trans htarget.symm, h.deltas, h.drawn, ?_, ?_, fun _ => replaceListing_directory _ _ _, fun _ _ => ?_⟩
    · grind [DirectoryLister.receiveItems, h.waits.mpr]
    · grind [DirectoryLister.receiveItems, h.waits.mpr]
    grind [hi.stable.replaceListing_content]
  · have hwaits : ¬s.pane.lister.activeListingIsWaitingForFirstItems r.target.requestSerial := fun hw =>
      hfirst (h.waits.mp (of_decide_eq_true hw))
    rw [if_neg hwaits, if_neg (not_not.mpr (h.place hfirst))] at ha
    obtain ⟨added, hadded, rfl⟩ := Option.map_eq_some_iff.mp ha
    refine ⟨h.target, h.deltas, h.drawn, h.active, ?_, fun _ => ?_, fun _ hd => ?_⟩
    · grind [h.waits.mp]
    · exact (DirectoryModel.place_directory (hi.stable.applyItemsAdded_place hadded)).trans (h.place hfirst)
    · have hbefore : r.Distinct := by
        have hall := hd
        rw [Request.Distinct, flatten_append, map_append] at hall
        exact (nodup_append.mp hall).1
      have hcontent := h.content hfirst hbefore
      refine (hi.stable.applyItemsAdded_content hi.traced (names_new hd hcontent) hadded).trans ?_
      grind

theorem Waiting.whole (h : Waiting s r) (hi : Inv places s) {entries : List EntryData} {pane : PaneState}
    (hp : s.pane.applyListerEvent places (.listingRefreshed r.target entries) = some pane) :
    Waiting ⟨pane, s.drawn, some { r with batches := [entries] }⟩ { r with batches := [entries] } := by
  obtain ⟨-, -, -, htarget⟩ := hi.frame hp
  obtain ⟨applied, ha, rfl⟩ := h.dispatched hi rfl hp
  obtain rfl := Option.some.inj ha
  have hnone := clear_of_active h.active
  refine ⟨h.target.trans htarget.symm, h.deltas, h.drawn, fun listing hl => ?_, ?_, fun _ => replaceListing_directory _ _ _,
    fun _ _ => ?_⟩
  · rw [hnone] at hl
    cases hl
  · grind
  grind [hi.stable.replaceListing_content]

theorem eq_with_serial {t t' : EventTarget Path} (h : t = t') : t = { t' with requestSerial := t.requestSerial } := by
  rw [h]

theorem Waiting.completes (h : Waiting s r) (hi : Inv places s) {pane : PaneState}
    (hp : s.pane.applyListerEvent places (.listingCompleted r.target) = some pane) :
    Done places ⟨pane, s.drawn, some { r with completed := true }⟩ { r with completed := true } := by
  obtain ⟨-, -, -, htarget⟩ := hi.frame hp
  obtain ⟨applied, ha, rfl⟩ := h.dispatched hi rfl hp
  have hsame : r.target = applied.2.1.target := h.target.trans htarget.symm
  have hserial : r.target.requestSerial = applied.2.1.requestSerial := congrArg EventTarget.requestSerial hsame
  rw [DirectoryLister.dispatch] at ha
  by_cases hempty : r.batches = []
  · have hwaits : s.pane.lister.activeListingIsEmpty r.target.requestSerial :=
      decide_eq_true (h.waits.mpr hempty)
    rw [if_pos (.inl hwaits)] at ha
    obtain rfl := Option.some.inj ha
    have hclear := clearForDirectory_content places s.pane.model r.target.path
    refine ⟨eq_with_serial hsame, hserial.le, clear_of_active h.active, hclear.1, fun _ => ?_⟩
    refine ⟨_, ⟨hclear.1, ?_⟩, by rw [h.deltas]; rfl⟩
    simp [hclear.2, hempty]
  · have hwaits : ¬(s.pane.lister.activeListingIsEmpty r.target.requestSerial ∨
        s.pane.model.directory ≠ r.target.path) := by
      rintro (hw | hother)
      · exact hempty (h.waits.mp (of_decide_eq_true hw))
      · exact hother (h.place hempty)
    rw [if_neg hwaits] at ha
    obtain rfl := Option.some.inj ha
    refine ⟨eq_with_serial hsame, hserial.le, clear_of_active h.active, h.place hempty, fun hd => ?_⟩
    exact ⟨s.pane.model, ⟨h.place hempty, h.content hempty hd⟩, by rw [h.deltas]; rfl⟩

theorem Inv.of_request (h : Inv places s) {drawn : List ListerEvent} {request : Option Request}
    (hp : s.pane.applyListerEvent places event = some pane) (hdrawn : drawn = [] ∨ drawn = s.drawn)
    (hw : ∀ r, request = some r → r.completed = false → Waiting ⟨pane, drawn, request⟩ r)
    (hd : ∀ r, request = some r → r.completed → Done places ⟨pane, drawn, request⟩ r) :
    Inv places ⟨pane, drawn, request⟩ := by
  obtain ⟨hstable, htraced, hat, htarget⟩ := h.frame hp
  refine ⟨hstable, htraced, hat, ?_, hw, hd⟩
  grind +splitImp +splitIndPred

theorem Done.delta (h : Done places s r) (hi : Inv places s) (hdr : Drained event) (hs : started event = false)
    (ht : event.target = s.pane.lister.target) (hp : s.pane.applyListerEvent places event = some pane) :
    Done places ⟨pane, [], some { r with deltas := r.deltas ++ [event] }⟩ { r with deltas := r.deltas ++ [event] } := by
  obtain ⟨-, -, -, htarget⟩ := hi.frame hp
  rw [applyListerEvent_current hi.atTarget ht h.current] at hp
  obtain ⟨applied, ha, rfl⟩ := Option.map_eq_some_iff.mp hp
  have hpath : event.target.path = r.target.path := by
    rw [ht]
    exact (congrArg EventTarget.path h.target).symm
  have hnone : ∀ serial, (s.pane.lister.clearActiveListingForSerial serial).activeListing = none := fun serial =>
    clear_of_active fun listing hl => by simp [h.active] at hl
  -- Each kind of delta leaves no listing active, does not leave the directory, and does what `applyDelta` says.
  have hstep : applied.2.1.activeListing = none ∧ applied.2.2.directory = s.pane.model.directory ∧
      applyDelta places s.pane.model event = some applied.2.2 := by
    cases event with
    | loadingStarted target mode => cases hs
    | itemsAdded target entries =>
      have hwaits : ¬s.pane.lister.activeListingIsWaitingForFirstItems target.requestSerial := by
        simp [DirectoryLister.activeListingIsWaitingForFirstItems, h.active]
      have hplace : ¬s.pane.model.directory ≠ target.path := not_not.mpr (h.place.trans hpath.symm)
      rw [DirectoryLister.dispatch, if_neg hwaits, if_neg hplace] at ha
      obtain ⟨added, hadded, rfl⟩ := Option.map_eq_some_iff.mp ha
      grind [DirectoryModel.place_directory, hi.stable.applyItemsAdded_place, h.active, applyDelta]
    | itemsDeleted target paths =>
      obtain rfl := Option.some.inj ha
      exact ⟨h.active, DirectoryModel.place_directory (applyItemsDeleted_place places _ paths), rfl⟩
    | itemsRefreshed target pairs =>
      obtain ⟨refreshed, hrefreshed, rfl⟩ := Option.map_eq_some_iff.mp ha
      grind [DirectoryModel.place_directory, hi.stable.applyItemsRefreshed_place, h.active, applyDelta]
    | currentDirectoryRemoved target =>
      obtain rfl := Option.some.inj ha
      exact ⟨hnone _, rfl, rfl⟩
    | error target message =>
      obtain rfl := Option.some.inj ha
      exact ⟨hnone _, rfl, rfl⟩
    | networkAuthRequired target uri message username domain => cases hdr
    | listingRefreshed target entries => cases hdr
    | listingCompleted target => cases hdr
  obtain ⟨hactive, hplace, hdelta⟩ := hstep
  refine ⟨?_, ?_, hactive, hplace.trans h.place, fun hd => ?_⟩
  · rw [htarget]
    exact h.target
  · exact h.serial.trans (congrArg EventTarget.requestSerial htarget).symm.le
  · obtain ⟨m, hm, hfold⟩ := h.content hd
    refine ⟨m, hm, ?_⟩
    grind [foldlM_append]

theorem Inv.passes (h : Inv places s) (hf : ∀ r, s.request = some r → Foreign event.target r.target)
    (hp : s.pane.applyListerEvent places event = some pane) : Inv places ⟨pane, s.drawn, s.request⟩ := by
  have hsame : ∀ r, s.request = some r → s.pane.lister.dropOvertaken = s.pane.lister →
      r.target = { s.pane.lister.target with requestSerial := r.target.requestSerial } →
      r.target.requestSerial ≤ s.pane.lister.requestSerial → pane = s.pane := by
    intro r hr hd ht hserial
    have hforeign := applyListerEvent_foreign places s.pane event
      ((congrArg EventTarget.paneId ht).trans h.atTarget.1) ((congrArg EventTarget.generation ht).trans h.atTarget.2.1)
      ((congrArg EventTarget.path ht).trans h.atTarget.2.2) hserial (hf r hr)
    rw [hd, or_self, hp] at hforeign
    exact Option.some.inj hforeign
  refine h.of_request hp (.inr rfl) (fun r hr hopen => ?_) fun r hr hcompleted => ?_
  · have hw := h.waiting r hr hopen
    have hserial : r.target.requestSerial = s.pane.lister.requestSerial := congrArg EventTarget.requestSerial hw.target
    rw [hsame r hr hw.current (eq_with_serial hw.target) hserial.le]
    exact hw
  · have hd := h.done r hr hcompleted
    rw [hsame r hr hd.current hd.target hd.serial]
    exact hd

theorem Inv.deliver (h : Inv places s) {pane : PaneState} {drawn : List ListerEvent} {request : Option Request}
    (hp : s.pane.applyListerEvent places event = some pane) (hn : Notes s event drawn request) :
    Inv places ⟨pane, drawn, request⟩ := by
  cases hn with
  | @begins r mode hr he hb hc =>
    subst he
    have hw := h.waiting r hr hc
    refine h.of_request hp (.inr rfl) (fun r' hr' _ => ?_) fun r' hr' hc' => ?_
    · obtain rfl := Option.some.inj hr'
      obtain ⟨applied, ha, rfl⟩ := hw.dispatched h rfl hp
      obtain rfl := Option.some.inj ha
      exact ⟨hw.target, hw.deltas, hw.drawn, fun _ hl => (Option.some.inj hl) ▸ rfl, iff_of_true rfl hb,
        fun hne => absurd hb hne, fun hne => absurd hb hne⟩
    grind
  | @batch r entries hr he hc =>
    subst he
    refine h.of_request hp (.inr rfl) (fun r' hr' _ => ?_) fun r' hr' hc' => ?_
    · obtain rfl := Option.some.inj hr'
      exact (h.waiting r hr hc).batch h hp
    grind
  | @whole r entries hr he hb hc =>
    subst he
    refine h.of_request hp (.inr rfl) (fun r' hr' _ => ?_) fun r' hr' hc' => ?_
    · obtain rfl := Option.some.inj hr'
      exact (h.waiting r hr hc).whole h hp
    grind
  | @completes r hr he hc =>
    subst he
    refine h.of_request hp (.inr rfl) (fun r' hr' hc' => ?_) fun r' hr' _ => ?_
    · obtain rfl := Option.some.inj hr'
      cases hc'
    · obtain rfl := Option.some.inj hr'
      exact (h.waiting r hr hc).completes h hp
  | fails => exact h.of_request hp (.inr rfl) (fun r hr => nomatch hr) fun r hr => nomatch hr
  | delta hmem hs =>
    obtain hnil | ⟨e, hone, ht, hdr⟩ := h.drawn
    · exact absurd (hnil ▸ hmem) not_mem_nil
    · obtain rfl : event = e := by simpa [hone] using hmem
      have hempty : s.drawn.erase event = [] := by simp [hone]
      rw [hempty]
      refine h.of_request hp (.inl rfl) (fun r hr hc => ?_) fun r hr hc => ?_
      · obtain ⟨r₀, hr₀, rfl⟩ := Option.map_eq_some_iff.mp hr
        have hw := (h.waiting r₀ hr₀ hc).drawn
        rw [hone] at hw
        cases hw
      · obtain ⟨r₀, hr₀, rfl⟩ := Option.map_eq_some_iff.mp hr
        rw [hr₀]
        exact (h.done r₀ hr₀ hc).delta h hdr hs ht hp
  | @lapses r hmem hs hr hlt =>
    obtain hnil | ⟨e, hone, ht, hdr⟩ := h.drawn
    · exact absurd (hnil ▸ hmem) not_mem_nil
    · obtain rfl : event = e := by simpa [hone] using hmem
      have hle : r.target.requestSerial ≤ s.pane.lister.requestSerial := by
        cases hc : r.completed with
        | true => exact (h.done r hr hc).serial
        | false => exact (congrArg EventTarget.requestSerial (h.waiting r hr hc).target).le
      rw [ht] at hlt
      exact absurd hlt (Nat.not_lt_of_le hle)
  | reloads hmem hs hnewer =>
    obtain hnil | ⟨e, hone, ht, hdr⟩ := h.drawn
    · exact absurd (hnil ▸ hmem) not_mem_nil
    · obtain rfl : event = e := by simpa [hone] using hmem
      have hempty : s.drawn.erase event = [] := by simp [hone]
      rw [hempty]
      refine h.of_request hp (.inl rfl) (fun r hr _ => ?_) fun r hr hc => ?_
      · obtain rfl := Option.some.inj hr
        obtain ⟨-, -, -, htarget⟩ := h.frame hp
        rw [applyListerEvent_latest h.atTarget ht] at hp
        obtain ⟨applied, ha, rfl⟩ := Option.map_eq_some_iff.mp hp
        cases event with
        | loadingStarted target mode =>
          obtain rfl := Option.some.inj ha
          exact ⟨ht.trans htarget.symm, rfl, rfl, fun _ hl => (Option.some.inj hl) ▸ rfl, iff_of_true rfl rfl,
            fun hne => absurd rfl hne, fun hne => absurd rfl hne⟩
        | _ => cases hs
      · obtain rfl := Option.some.inj hr
        cases hc
  | passes hf => exact h.passes hf hp

end Deliver

theorem Inv.step {action : Action} (h : Inv places s) (hc : s.Undisturbed action) (hs : Step places s action s') :
    Inv places s' := by
  cases hs with
  | load path generation => exact h.load hc path generation
  | reload => exact h.reload hc
  | drain readEntrySync errors deltas => exact h.drain hc
  | deliver hp hn => exact h.deliver hp hn

theorem inv_run {actions : List Action} (h : Run (fun s action s' => s.Undisturbed action ∧ Step places s action s') s
    actions s') (hs : Inv places s) : Inv places s' :=
  h.invariant (Q := fun _ => True) (fun _ _ _ hi _ hstep => hi.step hstep.1 hstep.2) hs fun _ _ => trivial

end Invariant

/-- In every run in which no serial is drawn at the wrong time, a request that is completed leaves the model with exactly
the entries of its batches, updated by the deltas delivered since, no event of an older request or for something else
changes the model, and no event panics. -/
theorem listing_not_lost (places : Places) (id : PaneId) (currentDir : Path) (actions : List Action) (s : Session)
    (h : Run (fun s action s' => s.Undisturbed action ∧ Step places s action s') (new places id currentDir) actions s) :
    (∀ r, s.request = some r → r.completed → r.Distinct →
        ∃ m, Holds m r ∧ r.deltas.foldlM (applyDelta places) m = some s.pane.model) ∧
      (∀ r event, s.request = some r → Foreign event.target r.target →
        ∃ pane, s.pane.applyListerEvent places event = some pane ∧ pane.model = s.pane.model) ∧
      ∀ event, (s.pane.applyListerEvent places event).isSome := by
  have hi := inv_run h (inv_new id currentDir)
  refine ⟨fun r hr hc => (hi.done r hr hc).content, fun r event hr hf => ?_, fun event => ?_⟩
  · have htarget : r.target = { s.pane.lister.target with requestSerial := r.target.requestSerial } ∧
        r.target.requestSerial ≤ s.pane.lister.requestSerial := by
      cases hc : r.completed with
      | true => exact ⟨(hi.done r hr hc).target, (hi.done r hr hc).serial⟩
      | false =>
        have hw := (hi.waiting r hr hc).target
        exact ⟨eq_with_serial hw, (congrArg EventTarget.requestSerial hw).le⟩
    obtain hsame | hsame := applyListerEvent_foreign places s.pane event
      ((congrArg EventTarget.paneId htarget.1).trans hi.atTarget.1)
      ((congrArg EventTarget.generation htarget.1).trans hi.atTarget.2.1)
      ((congrArg EventTarget.path htarget.1).trans hi.atTarget.2.2) htarget.2 hf
    · exact ⟨_, hsame, rfl⟩
    · exact ⟨_, hsame, rfl⟩
  · obtain ⟨pane, hpane, -⟩ := applyListerEvent_keeps places s.pane hi.stable hi.traced event
    rw [hpane]
    rfl

section Sample

def firstTarget : EventTarget Path := ⟨0, 1, 1, folder⟩

def deleted : ClassifiedWatcherDelta := .itemsDeleted [pathOf 'a']

def quietRun : List Action :=
  [.load folder 1, .deliver (.itemsAdded firstTarget [file 'a' 0]),
    .deliver (.itemsAdded firstTarget [file 'b' 0]), .deliver (.listingCompleted firstTarget),
    .drain (fun _ => none) [] [deleted],
    .deliver (.itemsDeleted { firstTarget with requestSerial := 2 } [pathOf 'a'])]

theorem run_quietRun : ∃ s, Run (fun s action s' => s.Undisturbed action ∧ Step plain s action s')
    (new plain 0 folder) quietRun s ∧ s.pane.model.content = [(file 'b' 0).unmeasured] ∧
      ∃ r, s.request = some r ∧ r.completed ∧ r.batches = [[file 'a' 0], [file 'b' 0]] := by
  refine ⟨_, .cons ⟨rfl, .load _ _⟩ (.cons ⟨trivial, .deliver rfl (.batch rfl rfl rfl)⟩
    (.cons ⟨trivial, .deliver rfl (.batch rfl rfl rfl)⟩ (.cons ⟨trivial, .deliver rfl (.completes rfl rfl rfl)⟩
      (.cons ⟨.inr ⟨rfl, rfl, ?_⟩, .drain _ _ _⟩ (.cons ⟨trivial, .deliver rfl (.delta ?_ rfl)⟩ (.nil _)))))), ?_, ?_⟩
  · grind
  · exact mem_cons_self
  · rfl
  · exact ⟨_, rfl, rfl, rfl⟩

theorem listing_not_lost_quiet : ∃ s : Session, s.pane.model.content = [(file 'b' 0).unmeasured] ∧
    ∃ r, s.request = some r ∧ r.completed ∧ r.batches = [[file 'a' 0], [file 'b' 0]] ∧
      ∃ m, Holds m r ∧ r.deltas.foldlM (applyDelta plain) m = some s.pane.model := by
  obtain ⟨s, hrun, hcontent, r, hr, hc, hbatches⟩ := run_quietRun
  refine ⟨s, hcontent, r, hr, hc, hbatches, (listing_not_lost plain 0 folder quietRun s hrun).1 r hr hc ?_⟩
  rw [Request.Distinct, hbatches]
  decide

/-- The watcher reports a deletion while the directory is read. -/
def disturbedRun : List Action :=
  [.load folder 1, .drain (fun _ => none) [] [deleted], .deliver (.itemsAdded firstTarget [file 'a' 0]),
    .deliver (.itemsAdded firstTarget [file 'b' 0]), .deliver (.listingCompleted firstTarget)]

/-- The whole listing is lost: all that is delivered for the request is out of date by then. -/
theorem listing_lost_to_delta : ∃ s, Run (Step plain) (new plain 0 folder) disturbedRun s ∧
    (∃ r, s.request = some r ∧ r.completed ∧ r.Distinct ∧ r.batches = [[file 'a' 0], [file 'b' 0]] ∧ r.deltas = []) ∧
      s.pane.model.content = [] ∧ ¬∃ r m, s.request = some r ∧ Holds m r ∧
        r.deltas.foldlM (applyDelta plain) m = some s.pane.model := by
  refine ⟨_, .cons (.load _ _) (.cons (.drain _ _ _) (.cons (.deliver rfl (.batch rfl rfl rfl))
    (.cons (.deliver rfl (.batch rfl rfl rfl)) (.cons (.deliver rfl (.completes rfl rfl rfl)) (.nil _))))), ?_, rfl, ?_⟩
  · exact ⟨_, rfl, rfl, by rw [Request.Distinct]; decide, rfl, rfl⟩
  · rintro ⟨r, m, hr, hholds, hfold⟩
    obtain rfl := Option.some.inj hr
    obtain rfl := Option.some.inj hfold
    exact absurd hholds.2.length_eq (by decide)

end Sample

end Session

end TensorDE.Files
