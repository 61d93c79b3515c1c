import TensorDE.Lib.Patch
import TensorDE.Lib.Ranges
import TensorDE.Lib.Trace
import TensorDE.Renderer.UploadBelt

set_option linter.dupNamespace false

namespace TensorDE.Renderer.UploadBelt

open Effect Patch Ranges Trace UploadBatch List

/-- Bytes staged in a buffer. -/
structure Placed where
  handle : Nat
  range : Range
deriving DecidableEq

/-- A belt in use. Beside the belt, the open batch (with its encoder, unless a failed flush lost it) and the
device timeline, the session records what the belt does not: `staged` are the ranges of the open batch that
are not submitted, `owners` the buffers behind the touched indices, `inFlight` the ranges submitted, and
`settled` the chunks as they would be without the staged ranges. -/
structure Session where
  belt : UploadBelt
  batch : Option Bool
  nextTimeline : Nat
  completed : Nat
  nextBuffer : Nat
  staged : List Placed
  owners : List Nat
  inFlight : List (Nat × Placed)
  settled : List UploadChunk

def Session.new (descriptor : UploadBeltDescriptor) : Session :=
  ⟨⟨descriptor, [], []⟩, none, 1, 0, 0, [], [], [], []⟩

inductive Event where
  | begin
  | stage (size : Nat)
  | flush
  /-- With the timeline value seen after the wait, if there was one to wait for and it did not fail. -/
  | waitForOldestReuse (reached : Option Nat)
  | submit
  | drop
  | trim
  /-- The device reaches a timeline value. -/
  | complete (value : Nat)
  /-- The queue takes a submission that has nothing to do with the belt. -/
  | elsewhere

variable (s : Session)

/-- The session after a stage, which may have failed behind the reservation. -/
def Session.afterStage (belt : UploadBelt) : Session :=
  { s with
    belt
    nextBuffer := if s.belt.chunks.length < belt.chunks.length then s.nextBuffer + 1 else s.nextBuffer
    owners := s.owners ++ ((belt.touched.drop s.belt.touched.length).filterMap fun entry =>
      belt.chunks[entry.1]?.map (·.buffer.handle))
    settled := s.settled ++ ((belt.chunks.drop s.belt.chunks.length).map fun chunk => { chunk with cursor := 0 }) }

/-- The session after a submission that the queue took. -/
def Session.afterCommit (belt : UploadBelt) (batch : Option Bool) : Session :=
  { s with
    belt
    batch
    nextTimeline := s.nextTimeline + 1
    staged := []
    owners := []
    inFlight := s.inFlight ++ s.staged.map fun placed => (s.nextTimeline, placed)
    settled := belt.chunks }

def Session.afterRollback (belt : UploadBelt) (timeline : Nat) : Session :=
  { s with belt, batch := none, nextTimeline := timeline, staged := [], owners := [] }

/-- A trim also settles: it does the same to the chunks with and without the staged ranges. -/
def Session.afterTrim (completed : Nat) : Session :=
  { s with
    belt := s.belt.trimCompleted completed
    settled := trimmed completed s.belt.descriptor.chunkSize.toNat s.settled }

/-- Each operation with each of its outcomes. A call that fails before it has changed anything is left out. -/
inductive Step : Session → Event → Session → Prop where
  /-- `begin`; the encoder may fail after the reclaim. -/
  | begin {s : Session} {batch : Option Bool} : s.batch = none → batch = some true ∨ batch = none →
      Step s .begin { s with
        belt := { s.belt with chunks := reclaimCompletedAt s.completed s.belt.chunks }
        batch
        settled := reclaimCompletedAt s.completed s.belt.chunks }
  | staged {s : Session} {belt size slice encoder created chunk} : s.batch = some encoder →
      (∀ handle, created = .ok handle → handle = s.nextBuffer) →
      UploadBatch.stage size created (.ok ()) s.belt = .ok slice belt → belt.chunks[slice.chunkIndex]? = some chunk →
      Step s (.stage size) { s.afterStage belt with
        staged := s.staged ++ [⟨chunk.buffer.handle, slice.offset, slice.offset + slice.size⟩] }
  | stageFailed {s : Session} {belt size encoder created written e} : s.batch = some encoder →
      (∀ handle, created = .ok handle → handle = s.nextBuffer) →
      UploadBatch.stage size created written s.belt = .error (.error e) belt → Step s (.stage size) (s.afterStage belt)
  /-- The next encoder may fail after the commit. -/
  | flushed {s : Session} {belt encoder} : s.batch = some true → s.belt.touched ≠ [] →
      UploadBatch.commit s.nextTimeline s.belt = .ok () belt → Step s .flush (s.afterCommit belt (some encoder))
  /-- The encoder is gone, but the batch is still there. -/
  | flushFailed {s : Session} {timeline : Nat} : s.batch = some true → s.belt.touched ≠ [] → s.nextTimeline ≤ timeline →
      Step s .flush { s with batch := some false, nextTimeline := timeline }
  /-- There was nothing to wait for, or the wait failed. -/
  | waited {s : Session} {encoder} : s.batch = some encoder →
      Step s (.waitForOldestReuse none) (s.afterTrim s.completed)
  | waitedForOldest {s : Session} {encoder frame completed} : s.batch = some encoder →
      oldestPendingFrame (s.belt.trimCompleted s.completed).chunks = some frame →
      s.completed ≤ completed → frame ≤ completed → completed < s.nextTimeline →
      Step s (.waitForOldestReuse (some completed)) { (s.afterTrim s.completed).afterTrim frame with completed }
  | submitted {s : Session} {belt} : s.batch = some true →
      UploadBatch.commit s.nextTimeline s.belt = .ok () belt → Step s .submit (s.afterCommit belt none)
  | submitFailed {s : Session} {belt encoder} {timeline : Nat} : s.batch = some encoder → s.nextTimeline ≤ timeline →
      UploadBatch.rollback s.belt = .ok () belt → Step s .submit (s.afterRollback belt timeline)
  | dropped {s : Session} {belt encoder} : s.batch = some encoder → UploadBatch.rollback s.belt = .ok () belt →
      Step s .drop (s.afterRollback belt s.nextTimeline)
  | trimmed {s : Session} : s.batch = none → Step s .trim (s.afterTrim s.completed)
  | complete {s : Session} {value : Nat} : s.completed ≤ value → value < s.nextTimeline →
      Step s (.complete value) { s with completed := value }
  | elsewhere {s : Session} : Step s .elsewhere { s with nextTimeline := s.nextTimeline + 1 }

/-- The ranges the device may still read: those staged, and those of submissions that are not complete. -/
def Session.pending : List Placed :=
  s.staged ++ (s.inFlight.filter fun entry => s.completed < entry.1).map Prod.snd

def Placed.Clear (p q : Placed) : Prop := p.handle = q.handle → p.range.Apart q.range

structure Safe (s : Session) : Prop where
  handles : (s.belt.chunks.map (·.buffer.handle)).Nodup
  live : ∀ p ∈ s.pending, ∃ chunk ∈ s.belt.chunks, chunk.buffer.handle = p.handle ∧ p.range.stop ≤ chunk.buffer.size
  clear : s.pending.Pairwise Placed.Clear
  touched : (s.belt.touched.map fun entry => s.belt.chunks[entry.1]?.map (·.buffer.handle)) = s.owners.map some
  count : s.belt.chunks.length ≤ s.belt.descriptor.maxChunks
  bytes : (s.belt.chunks.map (·.buffer.size)).sum ≤ s.belt.descriptor.maxBytes.toNat

/-- A trim up to `limit` leaves the touched chunks where they are: nothing is staged, or the one touched chunk
is the ordinary one that is kept and all chunks before it are still in flight. -/
def Session.Spares (limit : Nat) : Prop :=
  s.belt.touched = [] ∨ ∃ index previous chunk, s.belt.touched = [(index, previous)] ∧
    s.belt.chunks[index]? = some chunk ∧ chunk.buffer.size = s.belt.descriptor.chunkSize.toNat ∧
    ∀ i < index, ∀ earlier, s.belt.chunks[i]? = some earlier → limit < earlier.retireAfter

/-- The condition on a call of `wait_for_oldest_reuse`, which trims once or twice. -/
def Event.Careful : Event → Prop
  | .waitForOldestReuse none => s.Spares s.completed
  | .waitForOldestReuse (some _) => s.Spares s.completed ∧
      ∀ frame, oldestPendingFrame (s.belt.trimCompleted s.completed).chunks = some frame → s.Spares frame
  | _ => True

section Touched

variable {update : Nat → UploadChunk → UploadChunk} {touched : List (Nat × Nat)} {chunks : List UploadChunk}
  {index previous : Nat} {chunk : UploadChunk}

def eachTouched (update : Nat → UploadChunk → UploadChunk) (touched : List (Nat × Nat)) (chunks : List UploadChunk) :
    List UploadChunk :=
  chunks.mapIdx fun index chunk => ((touched.lookup index).map fun previous => update previous chunk).getD chunk

def unwind (touched : List (Nat × Nat)) (chunks : List UploadChunk) : List UploadChunk :=
  eachTouched (fun previous chunk => { chunk with cursor := previous }) touched chunks

theorem getElem?_eachTouched (update : Nat → UploadChunk → UploadChunk) (touched : List (Nat × Nat))
    (chunks : List UploadChunk) (index : Nat) : (eachTouched update touched chunks)[index]? =
      chunks[index]?.map fun chunk => ((touched.lookup index).map fun previous => update previous chunk).getD chunk := by
  simp [eachTouched]

@[simp] theorem length_eachTouched : (eachTouched update touched chunks).length = chunks.length := by
  simp [eachTouched]

@[simp] theorem eachTouched_nil : eachTouched update [] chunks = chunks := by
  apply ext_getElem?
  grind [getElem?_eachTouched]

theorem lookup_eq_none (h : index ∉ touched.map Prod.fst) : touched.lookup index = none := by
  grind

theorem lookup_eq_some (hn : (touched.map Prod.fst).Nodup) (h : (index, previous) ∈ touched) :
    touched.lookup index = some previous := by
  induction touched with
  | nil => cases h
  | cons entry touched ih => grind

theorem map_buffer_eachTouched (update : Nat → UploadChunk → UploadChunk) (touched : List (Nat × Nat))
    (hu : ∀ previous chunk, (update previous chunk).buffer = chunk.buffer) :
    (eachTouched update touched chunks).map UploadChunk.buffer = chunks.map UploadChunk.buffer := by
  apply ext_getElem?
  intro i
  rw [getElem?_map, getElem?_map, getElem?_eachTouched, Option.map_map]
  congr 1
  funext c
  cases touched.lookup i <;> simp [hu]

theorem getElem?_eachTouched_of_mem (update : Nat → UploadChunk → UploadChunk)
    (hn : (touched.map Prod.fst).Nodup) (h : (index, previous) ∈ touched)
    (hget : chunks[index]? = some chunk) : (eachTouched update touched chunks)[index]? = some (update previous chunk) := by
  simp [getElem?_eachTouched, hget, lookup_eq_some hn h]

theorem getElem?_eachTouched_of_notMem (h : index ∉ touched.map Prod.fst) :
    (eachTouched update touched chunks)[index]? = chunks[index]? := by
  grind [getElem?_eachTouched]

theorem mem_eachTouched (hn : (touched.map Prod.fst).Nodup) (h : chunk ∈ eachTouched update touched chunks) :
    chunk ∈ chunks ∨ ∃ entry ∈ touched, ∃ old, chunks[entry.1]? = some old ∧ chunk = update entry.2 old := by
  obtain ⟨i, hget⟩ := mem_iff_getElem?.mp h
  grind [getElem?_eachTouched, Option.map_eq_some_iff, lookup_eq_some]

theorem updateTouched_run (hn : (touched.map Prod.fst).Nodup) (hlt : ∀ entry ∈ touched, entry.1 < chunks.length) :
    updateTouched update touched chunks = some (eachTouched update touched chunks) := by
  induction touched generalizing chunks with
  | nil => simp [updateTouched]
  | cons entry touched ih =>
    obtain ⟨index, previous⟩ := entry
    simp only [map_cons, nodup_cons, mem_cons, forall_eq_or_imp] at hn hlt
    have hget : chunks[index]? = some chunks[index] := getElem?_eq_getElem hlt.1
    rw [updateTouched, hget]
    simp only
    rw [ih hn.2 (by simpa using hlt.2), Option.some.injEq]
    apply ext_getElem?
    grind [getElem?_eachTouched]

theorem lookup_touch (i : Nat) : (touch index previous touched).lookup i =
    if i = index then some ((touched.lookup index).getD previous) else touched.lookup i := by
  unfold touch
  split
  · split
    · rename_i hi
      subst hi
      cases hl : touched.lookup i with
      | some p => rfl
      | none => grind
    · rfl
  grind

theorem unwind_touch (h : chunks[index]? = some chunk) (cursor : Nat) :
    unwind (touch index chunk.cursor touched) (chunks.set index { chunk with cursor }) = unwind touched chunks := by
  obtain ⟨hlt, rfl⟩ := List.getElem?_eq_some_iff.mp h
  apply ext_getElem?
  intro i
  simp only [unwind, getElem?_eachTouched, lookup_touch]
  by_cases hi : i = index
  · subst hi
    cases hl : touched.lookup i <;> simp [hlt]
  grind

theorem unwind_touch_new (hlt : ∀ entry ∈ touched, entry.1 < chunks.length) :
    unwind (touch chunks.length previous touched) (chunks ++ [chunk]) =
      unwind touched chunks ++ [{ chunk with cursor := previous }] := by
  have hnone : touched.lookup chunks.length = none := by
    apply lookup_eq_none
    simp only [mem_map, not_exists, not_and]
    intro entry hmem he
    exact lt_irrefl _ (he ▸ hlt entry hmem)
  apply ext_getElem?
  intro i
  simp only [unwind, getElem?_eachTouched, lookup_touch]
  grind [eachTouched]

end Touched

section Reserve

variable {size : Nat} {created : Except Error Nat} {written : Except Error Unit} {belt : UploadBelt}
  {chunks : List UploadChunk} {chunk : UploadChunk}

/-- The belt after a reservation and its touched record, with the index and the offset of the range. -/
inductive Extended (size : Nat) (created : Except Error Nat) (belt : UploadBelt) : Nat → Nat → UploadBelt → Prop where
  | reuse {index offset chunk} : belt.chunks[index]? = some chunk → chunk.retireAfter = 0 → chunk.cursor ≤ offset →
      offset + size ≤ chunk.buffer.size → Extended size created belt index offset { belt with
        chunks := belt.chunks.set index { chunk with cursor := offset + size }
        touched := touch index chunk.cursor belt.touched }
  | add {handle chunkSize} : created = .ok handle → size ≤ chunkSize →
      belt.chunks.length < belt.descriptor.maxChunks →
      (belt.chunks.map (·.buffer.size)).sum + chunkSize ≤ belt.descriptor.maxBytes.toNat →
      Extended size created belt belt.chunks.length 0 { belt with
        chunks := belt.chunks ++ [⟨⟨handle, chunkSize⟩, size, 0⟩]
        touched := touch belt.chunks.length 0 belt.touched }

/-- What `validate_descriptor` checks of the alignment. -/
def Aligned (descriptor : UploadBeltDescriptor) : Prop :=
  4 ≤ descriptor.offsetAlignment.toNat ∧ descriptor.offsetAlignment.toNat.isPowerOfTwo

theorem validateDescriptor_aligned {descriptor : UploadBeltDescriptor} (h : validateDescriptor descriptor = .ok ()) :
    Aligned descriptor := by
  grind [UInt64.lt_iff_toNat_lt, Aligned, validateDescriptor]

theorem room_spec {alignment offset : Nat} (h : alignment.isPowerOfTwo) (ha : alignment < 2 ^ 64)
    (hr : room alignment size chunk = some offset) :
    chunk.retireAfter = 0 ∧ chunk.cursor ≤ offset ∧ offset + size ≤ chunk.buffer.size := by
  simp only [room, Option.bind_eq_bind, Option.bind_eq_some_iff, Option.guard_eq_some', Option.pure_def,
    Option.some.injEq, checkedAdd, Option.ite_none_right_eq_some] at hr
  obtain ⟨_, hidle, start, hstart, stop, ⟨_, rfl⟩, _, hfit, rfl⟩ := hr
  exact ⟨hidle, (Align.alignUp_spec h ha hstart).1, hfit⟩

theorem findRoom_spec {alignment index found offset : Nat} (h : findRoom alignment size index chunks = some (found, offset)) :
    index ≤ found ∧ ∃ chunk, chunks[found - index]? = some chunk ∧ room alignment size chunk = some offset := by
  induction chunks generalizing index with
  | nil => cases h
  | cons chunk rest ih => grind [findRoom]

theorem le_of_checkedNextPowerOfTwo {value power : Nat} (h : checkedNextPowerOfTwo value = some power) : value ≤ power := by
  obtain ⟨k, hk, rfl⟩ := Option.map_eq_some_iff.mp h
  simpa using find?_some hk

theorem retainedBytes_eq {total : Nat} (h : retainedBytes chunks = some total) :
    total = (chunks.map (·.buffer.size)).sum := by
  have hgen : ∀ start total, chunks.foldlM (fun total chunk => checkedAdd total chunk.buffer.size) start = some total →
      total = start + (chunks.map (·.buffer.size)).sum := by
    clear h
    induction chunks with
    | nil => simp
    | cons chunk rest ih => grind [checkedAdd]
  simpa using hgen 0 total h

theorem reserve_returns (hd : Aligned belt.descriptor) :
    Returns (fun r t => Extended size created belt r.1 r.2.1 { t with touched := touch r.1 r.2.2 t.touched })
      (fun _ t => t = belt) (reserve size created belt) := by
  have hpow : (max belt.descriptor.offsetAlignment.toNat 4).isPowerOfTwo := by
    rw [max_eq_left hd.1]
    exact hd.2
  have hlt : max belt.descriptor.offsetAlignment.toNat 4 < 2 ^ 64 := by
    rw [max_eq_left hd.1]
    exact belt.descriptor.offsetAlignment.toNat_lt
  simp only [reserve, bind_run, get_run]
  cases hroom : findRoom (max belt.descriptor.offsetAlignment.toNat 4) size 0 belt.chunks with
  | some found =>
    obtain ⟨index, offset⟩ := found
    obtain ⟨_, chunk, hget, hr⟩ := findRoom_spec hroom
    obtain ⟨hidle, hle, hfit⟩ := room_spec hpow hlt hr
    rw [Nat.sub_zero] at hget
    simp only [bind_run, hget, expect_some, pure_run, set_run]
    exact .reuse hget hidle hle hfit
  | none =>
    simp only
    split
    · rfl
    rename_i hcount
    cases hsize : checkedNextPowerOfTwo (max size belt.descriptor.chunkSize.toNat) with
    | none => rfl
    | some chunkSize =>
      have hle : size ≤ chunkSize := (le_max_left _ _).trans (le_of_checkedNextPowerOfTwo hsize)
      simp only [okOr_some, bind_run, pure_run]
      cases hbytes : retainedBytes belt.chunks with
      | none => rfl
      | some retained =>
        simp only [okOr_some, pure_run]
        cases hadd : checkedAdd retained chunkSize with
        | none => rfl
        | some total =>
          simp only
          split
          · rfl
          rename_i hlimit
          cases created with
          | error e => rfl
          | ok handle =>
            simp only [bind_run, set_run, pure_run]
            refine .add rfl hle (Nat.lt_of_not_le hcount) ?_
            grind [checkedAdd, retainedBytes_eq]

theorem stage_returns (hd : Aligned belt.descriptor) :
    Returns (fun slice t => Extended size created belt slice.chunkIndex slice.offset t ∧ slice.size = size)
      (fun _ t => t = belt ∨ ∃ index offset, Extended size created belt index offset t)
      (UploadBatch.stage size created written belt) := by
  refine Returns.bind ((reserve_returns hd).mono (fun _ _ h => h) fun _ _ h => .inl h) ?_
  rintro ⟨index, offset, previous⟩ t hext
  simp only [bind_run, get_run, set_run]
  cases written with
  | ok => exact ⟨hext, rfl⟩
  | error e => exact .inr ⟨index, offset, hext⟩

end Reserve

/-- The buffers of a belt: distinct, issued, and within the limits. -/
structure Stock (descriptor : UploadBeltDescriptor) (nextBuffer : Nat) (buffers : List Buffer) : Prop where
  handles : (buffers.map Buffer.handle).Nodup
  issued : ∀ buffer ∈ buffers, buffer.handle < nextBuffer
  count : buffers.length ≤ descriptor.maxChunks
  bytes : (buffers.map Buffer.size).sum ≤ descriptor.maxBytes.toNat

theorem Stock.sublist {descriptor : UploadBeltDescriptor} {nextBuffer : Nat} {buffers buffers' : List Buffer}
    (h : Stock descriptor nextBuffer buffers) (hs : buffers'.Sublist buffers) : Stock descriptor nextBuffer buffers' :=
  ⟨h.handles.sublist (hs.map _), fun b hb => h.issued b (hs.subset hb), hs.length_le.trans h.count,
    ((hs.map Buffer.size).sum_le_sum fun _ _ => Nat.zero_le _).trans h.bytes⟩

theorem Stock.snoc {descriptor : UploadBeltDescriptor} {nextBuffer : Nat} {buffers : List Buffer}
    (h : Stock descriptor nextBuffer buffers) (size : Nat) (hc : buffers.length < descriptor.maxChunks)
    (hb : (buffers.map Buffer.size).sum + size ≤ descriptor.maxBytes.toNat) :
    Stock descriptor (nextBuffer + 1) (buffers ++ [⟨nextBuffer, size⟩]) := by
  refine ⟨?_, ?_, by simpa using hc, by simpa using hb⟩
  · grind +splitImp +splitIndPred
  grind +splitImp +splitIndPred

structure Inv (s : Session) : Prop where
  aligned : Aligned s.belt.descriptor
  stock : Stock s.belt.descriptor s.nextBuffer (s.belt.chunks.map UploadChunk.buffer)
  fits : ∀ chunk ∈ s.belt.chunks, chunk.cursor ≤ chunk.buffer.size
  once : (s.belt.touched.map Prod.fst).Nodup
  idle : ∀ entry ∈ s.belt.touched, ∃ chunk, s.belt.chunks[entry.1]? = some chunk ∧ chunk.retireAfter = 0 ∧
    entry.2 ≤ chunk.cursor
  owners : (s.belt.touched.map fun entry => s.belt.chunks[entry.1]?.map (·.buffer.handle)) = s.owners.map some
  settled : s.settled = unwind s.belt.touched s.belt.chunks
  staged : ∀ p ∈ s.staged, ∃ entry ∈ s.belt.touched, ∃ chunk, s.belt.chunks[entry.1]? = some chunk ∧
    chunk.buffer.handle = p.handle ∧ p.range.stop ≤ chunk.cursor
  stagedClear : s.staged.Pairwise Placed.Clear
  flight : ∀ entry ∈ s.inFlight, s.completed < entry.1 → ∃ chunk ∈ s.belt.chunks,
    chunk.buffer.handle = entry.2.handle ∧ chunk.retireAfter = entry.1 ∧ entry.2.range.stop ≤ chunk.buffer.size
  flightClear : (s.inFlight.filter fun entry => s.completed < entry.1).Pairwise fun a b => a.2.Clear b.2
  timeline : s.completed < s.nextTimeline
  closed : s.batch = none → s.belt.touched = [] ∧ s.staged = []

section Inv

variable {s t : Session} {chunk chunk' : UploadChunk}

section

variable (h : Inv s)
include h

theorem Inv.chunk_unique (hc : chunk ∈ s.belt.chunks) (hc' : chunk' ∈ s.belt.chunks)
    (he : chunk.buffer.handle = chunk'.buffer.handle) : chunk = chunk' := by
  grind [h.stock.handles, inj_on_of_nodup_map]

theorem Inv.staged_clear_flight {p : Placed} {entry : Nat × Placed} (hp : p ∈ s.staged)
    (he : entry ∈ s.inFlight) (hlive : s.completed < entry.1) : p.handle ≠ entry.2.handle := by
  grind -linarith +splitImp +splitIndPred [h.flight, h.chunk_unique]

theorem Inv.safe : Safe s := by
  have hhandles := h.stock.handles
  have hcount := h.stock.count
  have hbytes := h.stock.bytes
  rw [map_map] at hhandles hbytes
  rw [length_map] at hcount
  refine ⟨hhandles, ?_, ?_, h.owners, hcount, hbytes⟩
  · simp only [Session.pending, mem_append, mem_map, mem_filter, decide_eq_true_eq]
    grind +splitImp +splitIndPred
  · rw [Session.pending, pairwise_append]
    refine ⟨h.stagedClear, pairwise_map.mpr h.flightClear, ?_⟩
    simp only [mem_map, mem_filter, decide_eq_true_eq]
    rintro p hp _ ⟨entry, ⟨hmem, hlive⟩, rfl⟩ heq
    grind [h.staged_clear_flight]

theorem Inv.touched_lt : ∀ entry ∈ s.belt.touched, entry.1 < s.belt.chunks.length := by
  grind [h.idle]

theorem Inv.commit_run (frame : Nat) : UploadBatch.commit frame s.belt = .ok () { s.belt with
    chunks := eachTouched (fun _ chunk => { chunk with retireAfter := frame }) s.belt.touched s.belt.chunks
    touched := [] } := by
  simp [UploadBatch.commit, updateTouched_run h.once h.touched_lt]

theorem Inv.rollback_run :
    UploadBatch.rollback s.belt = .ok () { s.belt with chunks := s.settled, touched := [] } := by
  rw [h.settled]
  simp [UploadBatch.rollback, updateTouched_run h.once h.touched_lt, unwind]

end

section Stage

variable {size index offset handle : Nat} {created : Except Error Nat} {belt : UploadBelt} {touched : List (Nat × Nat)}

variable {previous : Nat}

theorem mem_touch {entry : Nat × Nat} : entry ∈ touch index previous touched ↔
    entry ∈ touched ∨ entry = (index, previous) ∧ index ∉ touched.map Prod.fst := by
  grind [touch]

theorem exists_mem_touch (index previous : Nat) (touched : List (Nat × Nat)) :
    ∃ entry ∈ touch index previous touched, entry.1 = index := by
  by_cases hmem : index ∈ touched.map Prod.fst
  · obtain ⟨entry, he, rfl⟩ := mem_map.mp hmem
    exact ⟨entry, (mem_touch).mpr (.inl he), rfl⟩
  · exact ⟨(index, previous), (mem_touch).mpr (.inr ⟨rfl, hmem⟩), rfl⟩

theorem nodup_touch (h : (touched.map Prod.fst).Nodup) : ((touch index previous touched).map Prod.fst).Nodup := by
  grind [touch]

theorem drop_touch (previous : Nat) : (touch index previous touched).drop touched.length =
    if index ∈ touched.map Prod.fst then [] else [(index, previous)] := by
  grind [touch]

theorem owners_touch {chunks chunks' : List UploadChunk} {owners : List Nat}
    (ho : (touched.map fun entry => chunks[entry.1]?.map (·.buffer.handle)) = owners.map some)
    (hsame : ∀ entry ∈ touched, chunks'[entry.1]?.map (·.buffer.handle) = chunks[entry.1]?.map (·.buffer.handle))
    (hget : chunks'[index]? = some chunk) :
    ((touch index previous touched).map fun entry => chunks'[entry.1]?.map (·.buffer.handle)) =
      (owners ++ ((touch index previous touched).drop touched.length).filterMap fun entry =>
        chunks'[entry.1]?.map (·.buffer.handle)).map some := by
  grind [map_congr_left, touch]

/-- Chunks that stayed at their place, in the same buffer and with the cursor not moved back. -/
def Grown (chunks chunks' : List UploadChunk) : Prop :=
  ∀ (index : Nat) (chunk : UploadChunk), chunks[index]? = some chunk → ∃ chunk', chunks'[index]? = some chunk' ∧
    chunk'.buffer = chunk.buffer ∧ chunk'.retireAfter = chunk.retireAfter ∧ chunk.cursor ≤ chunk'.cursor

section Grown

variable {chunks' : List UploadChunk} (hg : Grown s.belt.chunks chunks')
include hg

theorem Grown.staged (h : Inv s) {previous : Nat} : ∀ p ∈ s.staged, ∃ entry ∈ touch index previous s.belt.touched,
    ∃ chunk, chunks'[entry.1]? = some chunk ∧ chunk.buffer.handle = p.handle ∧ p.range.stop ≤ chunk.cursor := by
  intro p hp
  obtain ⟨entry, hmem, c, hget, hhandle, hstop⟩ := h.staged p hp
  obtain ⟨c', hget', hbuffer, _, hcursor⟩ := hg _ _ hget
  exact ⟨entry, mem_touch.mpr (.inl hmem), c', hget', by rw [hbuffer, hhandle], hstop.trans hcursor⟩

theorem Grown.flight (h : Inv s) : ∀ entry ∈ s.inFlight, s.completed < entry.1 → ∃ chunk ∈ chunks',
    chunk.buffer.handle = entry.2.handle ∧ chunk.retireAfter = entry.1 ∧ entry.2.range.stop ≤ chunk.buffer.size := by
  intro entry hmem hlive
  obtain ⟨c, hc, hhandle, hretire, hstop⟩ := h.flight entry hmem hlive
  obtain ⟨i, hget⟩ := mem_iff_getElem?.mp hc
  obtain ⟨c', hget', hbuffer, hretire', _⟩ := hg _ _ hget
  grind

theorem Grown.idle (h : Inv s) {previous : Nat} (hget : chunks'[index]? = some chunk)
    (hidle : chunk.retireAfter = 0) (hle : previous ≤ chunk.cursor) :
    ∀ entry ∈ touch index previous s.belt.touched, ∃ chunk, chunks'[entry.1]? = some chunk ∧ chunk.retireAfter = 0 ∧
      entry.2 ≤ chunk.cursor := by
  grind [h.idle, touch, Grown]

theorem Grown.handles (h : Inv s) : ∀ entry ∈ s.belt.touched,
    chunks'[entry.1]?.map (·.buffer.handle) = s.belt.chunks[entry.1]?.map (·.buffer.handle) := by
  grind [h.idle, Grown]

end Grown

variable {chunks : List UploadChunk} (cursor : Nat)

theorem grown_set (hget : chunks[index]? = some chunk)
    (hle : chunk.cursor ≤ cursor) : Grown chunks (chunks.set index { chunk with cursor }) := by
  obtain ⟨hlt, _⟩ := List.getElem?_eq_some_iff.mp hget
  intro i c hc
  grind

theorem grown_append (chunks : List UploadChunk) (chunk : UploadChunk) : Grown chunks (chunks ++ [chunk]) :=
  fun i c hc => ⟨c, by grind, rfl, rfl, le_rfl⟩

theorem map_buffer_set (hget : chunks[index]? = some chunk) :
    (chunks.set index { chunk with cursor }).map UploadChunk.buffer = chunks.map UploadChunk.buffer :=
  map_set_same hget rfl

theorem Inv.reuse (h : Inv s) {encoder : Bool} (hb : s.batch = some encoder) {chunk : UploadChunk}
    (hget : s.belt.chunks[index]? = some chunk) (hidle : chunk.retireAfter = 0) (hle : chunk.cursor ≤ offset)
    (hfit : offset + size ≤ chunk.buffer.size) :
    Inv (s.afterStage { s.belt with
      chunks := s.belt.chunks.set index { chunk with cursor := offset + size }
      touched := touch index chunk.cursor s.belt.touched }) := by
  obtain ⟨hlt, _⟩ := List.getElem?_eq_some_iff.mp hget
  have hg := grown_set (offset + size) hget (by omega)
  have hself := getElem?_set_self (a := { chunk with cursor := offset + size }) hlt
  have hbuffers := map_buffer_set (offset + size) hget
  refine ⟨h.aligned, ?_, ?_, nodup_touch h.once, hg.idle h hself hidle (by simp only; omega),
    owners_touch h.owners (hg.handles h) hself, ?_, hg.staged h, h.stagedClear, hg.flight h, h.flightClear,
    h.timeline, ?_⟩
  · grind [h.stock, Session.afterStage]
  · intro c hc
    obtain hc | rfl := mem_or_eq_of_mem_set hc
    · exact h.fits c hc
    · exact hfit
  · simp [Session.afterStage, h.settled, unwind_touch hget]
  · intro hnone
    rw [show s.batch = none from hnone] at hb
    cases hb

theorem Inv.add (h : Inv s) {encoder : Bool} (hb : s.batch = some encoder) {chunkSize : Nat} (hle : size ≤ chunkSize)
    (hcount : s.belt.chunks.length < s.belt.descriptor.maxChunks)
    (hbytes : (s.belt.chunks.map (·.buffer.size)).sum + chunkSize ≤ s.belt.descriptor.maxBytes.toNat) :
    Inv (s.afterStage { s.belt with
      chunks := s.belt.chunks ++ [⟨⟨s.nextBuffer, chunkSize⟩, size, 0⟩]
      touched := touch s.belt.chunks.length 0 s.belt.touched }) := by
  have hg := grown_append s.belt.chunks ⟨⟨s.nextBuffer, chunkSize⟩, size, 0⟩
  have hself : (s.belt.chunks ++ [⟨⟨s.nextBuffer, chunkSize⟩, size, 0⟩])[s.belt.chunks.length]? =
      some ⟨⟨s.nextBuffer, chunkSize⟩, size, 0⟩ := by simp
  refine ⟨h.aligned, ?_, ?_, nodup_touch h.once, hg.idle h hself rfl (Nat.zero_le _),
    owners_touch h.owners (hg.handles h) hself, ?_, hg.staged h, h.stagedClear, hg.flight h, h.flightClear,
    h.timeline, ?_⟩
  · have hstock := h.stock.snoc chunkSize (by simpa using hcount) (by simpa [Function.comp_def] using hbytes)
    simpa [Session.afterStage] using hstock
  · intro c hc
    obtain hc | hc := mem_append.mp hc
    · exact h.fits c hc
    · rw [mem_singleton.mp hc]
      exact hle
  · simp [Session.afterStage, h.settled, unwind_touch_new h.touched_lt]
  · intro hnone
    rw [show s.batch = none from hnone] at hb
    cases hb

variable {encoder : Bool}

theorem Inv.extended (h : Inv s) (hb : s.batch = some encoder)
    (hc : ∀ handle, created = .ok handle → handle = s.nextBuffer) (he : Extended size created s.belt index offset belt) :
    Inv (s.afterStage belt) := by
  grind +splitImp +splitIndPred [reuse, add]

/-- The new range lies behind everything staged before in its chunk. -/
theorem Extended.behind (h : Inv s) (hc : ∀ handle, created = .ok handle → handle = s.nextBuffer)
    (he : Extended size created s.belt index offset belt) :
    ∃ chunk, belt.chunks[index]? = some chunk ∧ offset + size ≤ chunk.cursor ∧
      (∃ entry ∈ belt.touched, entry.1 = index) ∧
      ∀ p ∈ s.staged, p.handle = chunk.buffer.handle → p.range.stop ≤ offset := by
  cases he with
  | @reuse index offset chunk hget hidle hle hfit =>
    obtain ⟨hlt, _⟩ := List.getElem?_eq_some_iff.mp hget
    refine ⟨_, getElem?_set_self hlt, le_rfl, exists_mem_touch _ _ _, fun p hp heq => ?_⟩
    grind +splitImp +splitIndPred [h.chunk_unique]
  | @add handle chunkSize hcreated hle hcount hbytes =>
    obtain rfl := hc _ hcreated
    refine ⟨⟨⟨s.nextBuffer, chunkSize⟩, size, 0⟩, by simp, by simp, exists_mem_touch _ _ _, fun p hp heq => ?_⟩
    grind +splitImp +splitIndPred

theorem Inv.staged_extended (h : Inv s) (hb : s.batch = some encoder)
    (hc : ∀ handle, created = .ok handle → handle = s.nextBuffer) (he : Extended size created s.belt index offset belt) (hget : belt.chunks[index]? = some chunk) :
    Inv { s.afterStage belt with staged := s.staged ++ [⟨chunk.buffer.handle, offset, offset + size⟩] } := by
  have hi := h.extended hb hc he
  obtain ⟨chunk', hget', hcursor, ⟨entry, hmem, rfl⟩, hbehind⟩ := he.behind h hc
  rw [hget] at hget'
  cases hget'
  refine { hi with staged := ?_, stagedClear := ?_, closed := fun hnone => ?_ }
  · grind [hi.staged, Session.afterStage]
  · rw [pairwise_append]
    refine ⟨h.stagedClear, by simp, ?_⟩
    simp only [mem_singleton]
    rintro p hp _ rfl heq x ⟨hx, hx'⟩
    grind [Range.Holds]
  · rw [show s.batch = none from hnone] at hb
    cases hb

end Stage

theorem Inv.flight_untouched (h : Inv s) {index : Nat} (hget : s.belt.chunks[index]? = some chunk)
    (hr : chunk.retireAfter ≠ 0) : index ∉ s.belt.touched.map Prod.fst := by
  grind [h.idle]

theorem Inv.committed (h : Inv s) (batch : Option Bool) :
    Inv (s.afterCommit { s.belt with
      chunks := eachTouched (fun _ chunk => { chunk with retireAfter := s.nextTimeline }) s.belt.touched s.belt.chunks
      touched := [] } batch) := by
  refine ⟨h.aligned, ?_, ?_, by simp [Session.afterCommit], by simp [Session.afterCommit],
    by simp [Session.afterCommit], by simp [Session.afterCommit, unwind], by simp [Session.afterCommit],
    by simp [Session.afterCommit], ?_, ?_, Nat.lt_succ_of_lt h.timeline, fun _ => ⟨rfl, rfl⟩⟩
  · have hstock := h.stock
    rw [← map_buffer_eachTouched (fun _ chunk => { chunk with retireAfter := s.nextTimeline })
      s.belt.touched fun _ _ => rfl] at hstock
    exact hstock
  · intro c hc
    obtain hc | ⟨entry, _, old, hold, rfl⟩ := mem_eachTouched h.once hc
    · exact h.fits c hc
    · exact h.fits old (mem_of_getElem? hold)
  · intro entry hmem hlive
    simp only [Session.afterCommit, mem_append, mem_map] at hmem
    obtain hmem | ⟨p, hp, rfl⟩ := hmem
    · obtain ⟨c, hc, hhandle, hretire, hstop⟩ := h.flight entry hmem hlive
      obtain ⟨i, hget⟩ := mem_iff_getElem?.mp hc
      have hun : i ∉ s.belt.touched.map Prod.fst :=
        h.flight_untouched hget (hretire ▸ Nat.ne_of_gt (Nat.zero_lt_of_lt hlive))
      exact ⟨c, mem_of_getElem? ((getElem?_eachTouched_of_notMem hun).trans hget), hhandle, hretire, hstop⟩
    · obtain ⟨e, he, c, hget, hhandle, hstop⟩ := h.staged p hp
      have hnow := getElem?_eachTouched_of_mem (fun _ chunk => { chunk with retireAfter := s.nextTimeline })
        h.once he hget
      exact ⟨_, mem_of_getElem? hnow, hhandle, rfl, hstop.trans (h.fits c (mem_of_getElem? hget))⟩
  · simp only [Session.afterCommit, filter_append]
    rw [pairwise_append]
    refine ⟨h.flightClear, ?_, ?_⟩
    · grind [h.stagedClear]
    · simp only [mem_filter, mem_map]
      rintro entry ⟨hmem, hlive⟩ _ ⟨⟨p, hp, rfl⟩, _⟩ heq
      grind [h.staged_clear_flight]

theorem Inv.rolledBack (h : Inv s) {timeline : Nat} (ht : s.nextTimeline ≤ timeline) :
    Inv (s.afterRollback { s.belt with chunks := s.settled, touched := [] } timeline) := by
  have hbuffers : s.settled.map UploadChunk.buffer = s.belt.chunks.map UploadChunk.buffer := by
    rw [h.settled]
    exact map_buffer_eachTouched _ _ fun _ _ => rfl
  refine ⟨h.aligned, ?_, ?_, by simp [Session.afterRollback], by simp [Session.afterRollback],
    by simp [Session.afterRollback], by simp [Session.afterRollback, unwind], by simp [Session.afterRollback],
    by simp [Session.afterRollback], ?_, h.flightClear, lt_of_lt_of_le h.timeline ht, fun _ => ⟨rfl, rfl⟩⟩
  · have hstock := h.stock
    rw [← hbuffers] at hstock
    exact hstock
  · intro c hc
    simp only [Session.afterRollback] at hc
    rw [h.settled] at hc
    obtain hc | ⟨entry, hentry, old, hold, rfl⟩ := mem_eachTouched h.once hc
    · exact h.fits c hc
    grind +splitImp +splitIndPred
  · intro entry hmem hlive
    obtain ⟨c, hc, hhandle, hretire, hstop⟩ := h.flight entry hmem hlive
    obtain ⟨i, hget⟩ := mem_iff_getElem?.mp hc
    have hun : i ∉ s.belt.touched.map Prod.fst :=
      h.flight_untouched hget (hretire ▸ Nat.ne_of_gt (Nat.zero_lt_of_lt hlive))
    refine ⟨c, ?_, hhandle, hretire, hstop⟩
    simp only [Session.afterRollback]
    rw [h.settled]
    exact mem_of_getElem? ((getElem?_eachTouched_of_notMem hun).trans hget)

section Trim

variable {limit ordinary index : Nat} {chunks : List UploadChunk} {kept : Bool}

theorem map_buffer_reclaim : (reclaimCompletedAt limit chunks).map UploadChunk.buffer = chunks.map UploadChunk.buffer := by
  grind [reclaimCompletedAt, map_congr_left]

theorem fits_reclaim (h : ∀ c ∈ chunks, c.cursor ≤ c.buffer.size) :
    ∀ c ∈ reclaimCompletedAt limit chunks, c.cursor ≤ c.buffer.size := by
  grind [reclaimCompletedAt]

theorem mem_reclaim (hc : chunk ∈ chunks) (hl : limit < chunk.retireAfter) : chunk ∈ reclaimCompletedAt limit chunks :=
  mem_map.mpr ⟨chunk, hc, if_neg (by omega)⟩

theorem retainTrimmed_sublist : (retainTrimmed limit ordinary kept chunks).Sublist chunks := by
  induction chunks generalizing kept with
  | nil => exact .slnil
  | cons c rest ih => grind [retainTrimmed]

theorem mem_retainTrimmed (hc : chunk ∈ chunks) (hl : limit < chunk.retireAfter) :
    chunk ∈ retainTrimmed limit ordinary kept chunks := by
  induction chunks generalizing kept with
  | nil => cases hc
  | cons c rest ih => grind [retainTrimmed, retainTrimmedChunk]

section

variable (hget : chunks[index]? = some chunk)
include hget

/-- Up to a chunk that is kept as the idle one, with only chunks in flight before it, a trim changes nothing. -/
theorem trimmed_take (hidle : chunk.retireAfter = 0) (hsize : chunk.buffer.size = ordinary)
    (hbefore : ∀ i < index, ∀ earlier, chunks[i]? = some earlier → limit < earlier.retireAfter) :
    trimmed limit ordinary chunks =
      chunks.take (index + 1) ++ retainTrimmed limit ordinary true (reclaimCompletedAt limit (chunks.drop (index + 1))) := by
  induction index generalizing chunks with
  | zero =>
    cases chunks with
    | nil => cases hget
    | cons c rest => grind [trimmed, reclaimCompletedAt, retainTrimmed, retainTrimmedChunk]
  | succ index ih =>
    cases chunks with
    | nil => cases hget
    | cons c rest =>
      have hc := hbefore 0 (Nat.succ_pos _) c rfl
      have hget : rest[index]? = some chunk := by simpa using hget
      have hrest := ih hget fun i hi e he => hbefore (i + 1) (by omega) e (by simpa using he)
      have hstay : ¬ (c.retireAfter ≠ 0 ∧ c.retireAfter ≤ limit) := by omega
      simp only [trimmed, reclaimCompletedAt] at hrest ⊢
      simp [retainTrimmed, retainTrimmedChunk, hstay, hc, hrest]

theorem getElem?_trimmed_take (hidle : chunk.retireAfter = 0) (hsize : chunk.buffer.size = ordinary)
    (hbefore : ∀ i < index, ∀ earlier, chunks[i]? = some earlier → limit < earlier.retireAfter) {i : Nat} (hi : i ≤ index) :
    (trimmed limit ordinary chunks)[i]? = chunks[i]? := by
  obtain ⟨hlt, _⟩ := List.getElem?_eq_some_iff.mp hget
  rw [trimmed_take hget hidle hsize hbefore, getElem?_append_left (by simp; omega), getElem?_take,
    if_pos (by omega)]

theorem unwind_singleton (previous : Nat) :
    unwind [(index, previous)] chunks = chunks.set index { chunk with cursor := previous } := by
  obtain ⟨hlt, rfl⟩ := List.getElem?_eq_some_iff.mp hget
  apply ext_getElem?
  grind [unwind, getElem?_eachTouched]

/-- Trimming and taking back the staged range commute. -/
theorem unwind_trimmed (hidle : chunk.retireAfter = 0) (hsize : chunk.buffer.size = ordinary)
    (hbefore : ∀ i < index, ∀ earlier, chunks[i]? = some earlier → limit < earlier.retireAfter) (previous : Nat) :
    unwind [(index, previous)] (trimmed limit ordinary chunks) =
      trimmed limit ordinary (unwind [(index, previous)] chunks) := by
  obtain ⟨hlt, _⟩ := List.getElem?_eq_some_iff.mp hget
  have hget' := (getElem?_trimmed_take hget hidle hsize hbefore le_rfl).trans hget
  have hset : (chunks.set index { chunk with cursor := previous })[index]? = some { chunk with cursor := previous } :=
    getElem?_set_self hlt
  rw [unwind_singleton hget' previous, unwind_singleton hget previous, trimmed_take hget hidle hsize hbefore,
    trimmed_take hset hidle hsize, set_append_left _ _ (by simp; omega), take_set, drop_set_of_lt (by omega)]
  grind

end

theorem Inv.afterTrim (h : Inv s) (hs : s.Spares limit) (hl : limit ≤ s.completed) : Inv (s.afterTrim limit) := by
  have hsub : (trimmed limit s.belt.descriptor.chunkSize.toNat s.belt.chunks).Sublist
      (reclaimCompletedAt limit s.belt.chunks) := retainTrimmed_sublist
  have hkeep : ∀ entry ∈ s.belt.touched, (trimmed limit s.belt.descriptor.chunkSize.toNat s.belt.chunks)[entry.1]? =
      s.belt.chunks[entry.1]? := by
    obtain hnil | ⟨index, previous, chunk, htouched, hget, hsize, hbefore⟩ := hs
    · simp [hnil]
    · grind [h.idle, getElem?_trimmed_take]
  have hsettled : trimmed limit s.belt.descriptor.chunkSize.toNat s.settled =
      unwind s.belt.touched (trimmed limit s.belt.descriptor.chunkSize.toNat s.belt.chunks) := by
    rw [h.settled]
    obtain hnil | ⟨index, previous, chunk, htouched, hget, hsize, hbefore⟩ := hs
    · simp [hnil, unwind]
    · obtain ⟨c, hget', hidle, _⟩ := h.idle (index, previous) (by simp [htouched])
      grind [unwind_trimmed]
  refine ⟨h.aligned, ?_, ?_, h.once, ?_, ?_, hsettled, ?_, h.stagedClear, ?_, h.flightClear, h.timeline, h.closed⟩
  · have hmap := hsub.map UploadChunk.buffer
    rw [map_buffer_reclaim] at hmap
    exact h.stock.sublist hmap
  · exact fun c hc => fits_reclaim h.fits c (hsub.subset hc)
  · intro entry hmem
    obtain ⟨c, hget, hrest⟩ := h.idle entry hmem
    exact ⟨c, (hkeep entry hmem).trans hget, hrest⟩
  · refine Eq.trans (map_congr_left fun entry hmem => ?_) h.owners
    exact congrArg _ (hkeep entry hmem)
  · intro p hp
    obtain ⟨entry, hmem, c, hget, hrest⟩ := h.staged p hp
    exact ⟨entry, hmem, c, (hkeep entry hmem).trans hget, hrest⟩
  · intro entry hmem hlive
    obtain ⟨c, hc, hhandle, hretire, hstop⟩ := h.flight entry hmem hlive
    have hlt : limit < c.retireAfter := hretire ▸ lt_of_le_of_lt hl hlive
    exact ⟨c, mem_retainTrimmed (mem_reclaim hc hlt) hlt, hhandle, hretire, hstop⟩

theorem Session.Spares.afterTrim (h : Inv s) (hs : s.Spares limit) {frame : Nat} (hf : s.Spares frame) :
    (s.afterTrim limit).Spares frame := by
  obtain hnil | ⟨index, previous, chunk, htouched, hget, hsize, hbefore⟩ := hs
  · exact .inl hnil
  · obtain hnil | ⟨index', previous', chunk', htouched', hget', hsize', hbefore'⟩ := hf
    · rw [htouched] at hnil
      cases hnil
    · rw [htouched] at htouched'
      cases htouched'
      obtain ⟨c, hc, hidle, _⟩ := h.idle (index, previous) (by simp [htouched])
      rw [hget] at hc
      cases hc
      refine .inr ⟨index, previous, chunk, htouched, ?_, hsize, fun i hi earlier he => ?_⟩
      · exact (getElem?_trimmed_take hget hidle hsize hbefore le_rfl).trans hget
      · have hsame := getElem?_trimmed_take hget hidle hsize hbefore (le_of_lt hi)
        exact hbefore' i hi earlier (hsame.symm.trans he)

end Trim

theorem Inv.completed (h : Inv s) {value : Nat} (hle : s.completed ≤ value) (hlt : value < s.nextTimeline) :
    Inv { s with completed := value } := by
  refine { h with flight := ?_, flightClear := ?_, timeline := hlt }
  · grind [h.flight]
  · refine h.flightClear.sublist (monotone_filter_right s.inFlight fun entry he => ?_)
    simp only [decide_eq_true_eq] at he ⊢
    omega

theorem Inv.begun (h : Inv s) (hb : s.batch = none) (batch : Option Bool) : Inv { s with
    belt := { s.belt with chunks := reclaimCompletedAt s.completed s.belt.chunks }
    batch
    settled := reclaimCompletedAt s.completed s.belt.chunks } := by
  obtain ⟨htouched, hstaged⟩ := h.closed hb
  refine ⟨h.aligned, ?_, fits_reclaim h.fits, h.once, ?_, ?_, ?_, ?_, h.stagedClear, ?_, h.flightClear, h.timeline,
    fun _ => ⟨htouched, hstaged⟩⟩
  · rw [map_buffer_reclaim]
    exact h.stock
  · simp [htouched]
  · grind [h.owners]
  · simp [htouched, unwind]
  · simp [hstaged]
  grind [h.flight, mem_reclaim]

theorem Step.inv {event : Event} (h : Inv s) (hs : Step s event t) (hc : event.Careful s) : Inv t := by
  cases hs with
  | begin hb _ => exact h.begun hb _
  | staged hb hfresh hrun hget =>
    obtain ⟨hext, hsize⟩ := (stage_returns h.aligned).of_ok hrun
    rw [hsize]
    exact h.staged_extended hb hfresh hext hget
  | stageFailed hb hfresh hrun =>
    obtain rfl | ⟨_, _, hext⟩ := (stage_returns h.aligned).of_error hrun
    · simpa [Session.afterStage] using h
    · exact h.extended hb hfresh hext
  | flushed hb _ hrun => grind [h.commit_run, h.committed]
  | flushFailed hb _ hle => exact { h with timeline := lt_of_lt_of_le h.timeline hle, closed := by simp }
  | waited hb => exact h.afterTrim hc le_rfl
  | waitedForOldest hb hframe hle hreach hlt =>
    have hfirst := h.afterTrim hc.1 le_rfl
    have hspares : (s.afterTrim s.completed).Spares _ := hc.1.afterTrim h (hc.2 _ hframe)
    exact (hfirst.completed hle hlt).afterTrim hspares hreach
  | submitted hb hrun => grind [h.commit_run, h.committed]
  | submitFailed hb hle hrun => grind [h.rollback_run, h.rolledBack]
  | dropped hb hrun => grind [h.rollback_run, h.rolledBack]
  | trimmed hb => exact h.afterTrim (.inl (h.closed hb).1) le_rfl
  | complete hle hlt => exact h.completed hle hlt
  | elsewhere => exact { h with timeline := Nat.lt_succ_of_lt h.timeline }

theorem new_inv {descriptor : UploadBeltDescriptor} (h : validateDescriptor descriptor = .ok ()) :
    Inv (Session.new descriptor) := by
  refine ⟨validateDescriptor_aligned h, ⟨?_, ?_, ?_, ?_⟩, ?_, ?_, ?_, ?_, ?_, ?_, ?_, ?_, ?_, ?_, ?_⟩ <;>
    simp [Session.new, unwind]

theorem settled_staging {staging : List Event} (hrun : Run Step s staging t) (hst : ∀ e ∈ staging, ∃ size, e = .stage size)
    (h : Inv s) : Inv t ∧ s.settled <+: t.settled := by
  induction hrun with
  | nil s => exact ⟨h, prefix_rfl⟩
  | @cons s t u e es hs _ ih =>
    simp only [mem_cons, forall_eq_or_imp] at hst
    obtain ⟨⟨size, rfl⟩, hst⟩ := hst
    obtain ⟨hinv, hprefix⟩ := ih hst (hs.inv h trivial)
    refine ⟨hinv, List.IsPrefix.trans ?_ hprefix⟩
    cases hs with
    | staged => exact prefix_append _ _
    | stageFailed => exact prefix_append _ _

theorem Inv.drop_chunks (h : Inv s) (hs : Step s .drop t) : t.belt.chunks = s.settled := by
  cases hs with
  | dropped hb hrun =>
    rw [h.rollback_run] at hrun
    cases hrun
    rfl

/-- As long as `wait_for_oldest_reuse` is called with care, no staged range is lost or overwritten, a batch is
committed and rolled back on the chunks it was staged in, and a dropped batch leaves the chunks it found. -/
theorem belt_runs {descriptor : UploadBeltDescriptor} {events : List Event} (hd : validateDescriptor descriptor = .ok ())
    (hrun : Run (fun s event t => Step s event t ∧ event.Careful s) (Session.new descriptor) events s) :
    Safe s ∧ (∃ belt, UploadBatch.commit s.nextTimeline s.belt = .ok () belt) ∧
      UploadBatch.rollback s.belt = .ok () { s.belt with chunks := s.settled, touched := [] } ∧
      (∀ t, Step s .drop t → t.belt.chunks = s.settled) ∧
      ∀ opened staging u t, Step s .begin opened → Run Step opened staging u → (∀ e ∈ staging, ∃ size, e = .stage size) →
        Step u .drop t → opened.belt.chunks <+: t.belt.chunks := by
  have hinv : Inv s := hrun.invariant (Q := fun _ => True) (fun _ _ _ h _ hs => hs.1.inv h hs.2) (new_inv hd) (by simp)
  refine ⟨hinv.safe, ⟨_, hinv.commit_run _⟩, hinv.rollback_run, fun t => hinv.drop_chunks, ?_⟩
  intro opened staging u t hbegin hstaging hst hdrop
  obtain ⟨hu, hprefix⟩ := settled_staging hstaging hst (hbegin.inv hinv trivial)
  have hopened : opened.settled = opened.belt.chunks := by
    cases hbegin with
    | begin => rfl
  grind [hu.drop_chunks]

end Inv

def smallDescriptor : UploadBeltDescriptor := ⟨8, 8, 64, 4⟩

def fullChunk (handle : Nat) : UploadChunk := ⟨⟨handle, 8⟩, 8, 0⟩

def twoChunks : Session :=
  { Session.new smallDescriptor with
    belt := ⟨smallDescriptor, [fullChunk 0, fullChunk 1], [(0, 0), (1, 0)]⟩
    batch := some true
    nextBuffer := 2
    staged := [⟨0, 0, 8⟩, ⟨1, 0, 8⟩]
    owners := [0, 1]
    settled := [⟨⟨0, 8⟩, 0, 0⟩, ⟨⟨1, 8⟩, 0, 0⟩] }

theorem twoChunks_run : Run Step (Session.new smallDescriptor) [.begin, .stage 8, .stage 8] twoChunks := by
  refine .cons (@Step.begin _ (some true) rfl (.inl rfl)) ?_
  refine .cons (@Step.staged _ ⟨smallDescriptor, [fullChunk 0], [(0, 0)]⟩ 8 ⟨0, 0, 8⟩ true (.ok 0) (fullChunk 0) rfl (by rintro _ h; cases h; rfl) rfl rfl) ?_
  refine .cons (@Step.staged _ twoChunks.belt 8 ⟨1, 0, 8⟩ true (.ok 1) (fullChunk 1) rfl (by rintro _ h; cases h; rfl) rfl rfl) ?_
  exact .nil _

/-- Waiting with two chunks staged trims the second one away, and the commit would run off the list. -/
theorem wait_loses_staged_chunk : ∃ s, Run Step (Session.new smallDescriptor)
    [.begin, .stage 8, .stage 8, .waitForOldestReuse none] s ∧ ¬ Safe s ∧
    UploadBatch.commit s.nextTimeline s.belt = .error .panic s.belt := by
  refine ⟨twoChunks.afterTrim 0, twoChunks_run.snoc (@Step.waited _ true rfl), fun hsafe => ?_, rfl⟩
  obtain ⟨chunk, hmem, hhandle, _⟩ := hsafe.live ⟨1, 0, 8⟩ (by decide)
  revert hhandle
  revert chunk
  decide

def reclaimedChunk : Session :=
  { Session.new smallDescriptor with
    belt := ⟨smallDescriptor, [⟨⟨0, 8⟩, 0, 0⟩], []⟩
    batch := some true
    nextTimeline := 2
    completed := 1
    nextBuffer := 1
    inFlight := [(1, ⟨0, 0, 8⟩)]
    settled := [⟨⟨0, 8⟩, 0, 0⟩] }

theorem belt_runs_reclaimedChunk : Run (fun s event t => Step s event t ∧ event.Careful s) (Session.new smallDescriptor)
    [.begin, .stage 8, .flush, .waitForOldestReuse (some 1)] reclaimedChunk ∧ Safe reclaimedChunk ∧
    ∃ t, Step reclaimedChunk .drop t ∧ t.belt.chunks = reclaimedChunk.settled := by
  have hrun : Run (fun s event t => Step s event t ∧ event.Careful s) (Session.new smallDescriptor)
      [.begin, .stage 8, .flush, .waitForOldestReuse (some 1)] reclaimedChunk := by
    refine .cons ⟨@Step.begin _ (some true) rfl (.inl rfl), trivial⟩ ?_
    refine .cons ⟨@Step.staged _ ⟨smallDescriptor, [fullChunk 0], [(0, 0)]⟩ 8 ⟨0, 0, 8⟩ true (.ok 0) (fullChunk 0) rfl (by rintro _ h; cases h; rfl) rfl rfl, trivial⟩ ?_
    refine .cons ⟨@Step.flushed _ ⟨smallDescriptor, [⟨⟨0, 8⟩, 8, 1⟩], []⟩ true rfl (by decide) rfl, trivial⟩ ?_
    refine .cons ⟨@Step.waitedForOldest _ true 1 1 rfl rfl (by decide) (by decide) (by decide),
      .inl rfl, fun _ _ => .inl rfl⟩ ?_
    exact .nil _
  have hd : validateDescriptor smallDescriptor = .ok () := by decide
  obtain ⟨hsafe, _, hrollback, hdrop, _⟩ := belt_runs hd hrun
  exact ⟨hrun, hsafe, _, @Step.dropped _ _ true rfl hrollback, hdrop _ (@Step.dropped _ _ true rfl hrollback)⟩

end TensorDE.Renderer.UploadBelt
