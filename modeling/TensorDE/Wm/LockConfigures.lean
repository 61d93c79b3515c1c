import TensorDE.Lib.Effect
import TensorDE.Lib.Outstanding
import TensorDE.Wm.SessionLock

set_option linter.dupNamespace false

/-! The configure queue of a lock surface on its array, and what it keeps of the configures that were sent. -/

namespace TensorDE.Wm.LockConfigures

open Effect SessionLock Outstanding List

/-- The queue as the code keeps it: sixteen slots, of which the first `len` are filled. -/
structure ConfigureArray where
  pending : List (Option LockConfigure)
  len : Nat
  lastAcked : Option LockConfigure
  deferred : Option (Nat × Nat)

abbrev Call (α : Type) := Op ConfigureArray Unit α

namespace ConfigureArray

def new : ConfigureArray := ⟨List.replicate maxPendingConfigures none, 0, none, none⟩

variable (values : List (Option LockConfigure))

/-- `self.pending[index] = value`. -/
def store (index : Nat) (value : Option LockConfigure) :
    Call (List (Option LockConfigure)) :=
  if index < values.length then pure (values.set index value) else throw .panic

/-- `values.copy_within(start..stop, 0)`. -/
def copyWithin (start stop : Nat) : Call (List (Option LockConfigure)) := do
  let moved ← slice values start stop
  pure (moved ++ values.drop moved.length)

/-- `values[start..].fill(None)`. -/
def fillFrom (start : Nat) : Call (List (Option LockConfigure)) :=
  if start ≤ values.length then pure (values.take start ++ List.replicate (values.length - start) none)
  else throw .panic

def newest (q : ConfigureArray) : Call (Option LockConfigure) :=
  match q.len with
  | 0 => pure none
  | index + 1 => expect q.pending[index]?

def latestSize : Call (Option (Nat × Nat)) := do
  let q ← get
  let last ← q.newest
  pure ((last.map LockConfigure.size).or (q.lastAcked.map LockConfigure.size))

variable (serial : Nat)

def push (size : Nat × Nat) : Call (Option LockConfigure) := do
  let latest ← latestSize
  let q ← get
  if latest = some size then do
    set { q with deferred := none }
    pure none
  else if q.len = maxPendingConfigures then do
    set { q with deferred := some size }
    pure none
  else do
    let pending ← store q.pending q.len (some ⟨serial, size⟩)
    set { q with
      pending := pending
      len := q.len + 1 }
    pure (some ⟨serial, size⟩)

def hasSerial (configure : Option LockConfigure) : Bool :=
  configure.any fun configure => configure.serial = serial

/-- The deferred size goes back to the caller unless the client has been told of it already. -/
def handBack (deferred : Option (Nat × Nat)) : Call (Option (Nat × Nat)) :=
  match deferred with
  | none => pure none
  | some size => do
    let latest ← latestSize
    pure (if latest ≠ some size then some size else none)

def ack : Call (Option (Nat × Nat)) := do
  let q ← get
  let filled ← slice q.pending 0 q.len
  let index ← okOr (filled.findIdx? (hasSerial serial)) ()
  let configure ← expect q.pending[index]?.join
  let pending ← copyWithin q.pending (index + 1) q.len
  let len ← subUsize q.len (index + 1)
  let pending ← fillFrom pending len
  set (⟨pending, len, some configure, none⟩ : ConfigureArray)
  handBack q.deferred

/-- `configure_surface` and `configure_output`: the size asked for, under the next serial. -/
def configureSurface (size : Nat × Nat) : Call (Option LockConfigure) := push serial size

/-- `ack_configure`: a size that was deferred is asked for again. -/
def ackConfigure (serial next : Nat) : Call (Option LockConfigure) := do
  let deferred ← ack serial
  match deferred with
  | none => pure none
  | some size => configureSurface next size

end ConfigureArray

/-! ### The array holds the queue -/

/-- The filled slots of the array are the queue, the others are empty. -/
structure Represents (a : ConfigureArray) (q : ConfigureQueue) : Prop where
  slots : a.pending = q.pending.map some ++ List.replicate (maxPendingConfigures - q.pending.length) none
  len : a.len = q.pending.length
  lastAcked : a.lastAcked = q.lastAcked
  deferred : a.deferred = q.deferred

namespace Represents

open ConfigureArray

variable {a : ConfigureArray} {q : ConfigureQueue}

theorem new : Represents ConfigureArray.new ConfigureQueue.new := ⟨rfl, rfl, rfl, rfl⟩

theorem size (h : Represents a q) : a.pending.length = maxPendingConfigures := by
  rw [h.slots, length_append, length_map, length_replicate]
  exact Nat.add_sub_cancel' q.bounded

variable {i : Nat}

section

variable (h : Represents a q)
include h

theorem slot (hi : i < q.pending.length) : a.pending[i]? = some (some q.pending[i]) := by
  grind [h.slots]

theorem newest (s : ConfigureArray) : a.newest s = .ok q.pending.getLast? s := by
  rw [ConfigureArray.newest, h.len]
  cases hlength : q.pending.length with
  | zero =>
    rw [length_eq_zero_iff.mp hlength]
    rfl
  | succ index =>
    have hindex : index < q.pending.length := by omega
    dsimp only
    rw [h.slot hindex, expect_some, pure_run, getLast?_eq_getElem?, hlength, Nat.add_sub_cancel,
      getElem?_eq_getElem hindex]

theorem latestSize : ConfigureArray.latestSize a = .ok q.latestSize a := by
  rw [ConfigureArray.latestSize, bind_run, get_run]
  dsimp only
  rw [bind_run, h.newest a, h.lastAcked]
  rfl

theorem handBack (deferred : Option (Nat × Nat)) :
    ConfigureArray.handBack deferred a = .ok (deferred.filter fun size => q.latestSize ≠ some size) a := by
  cases deferred with
  | none => rfl
  | some size =>
    rw [ConfigureArray.handBack, bind_run, h.latestSize, Option.filter_some]
    by_cases hsize : q.latestSize = some size
    · simp
    · simp

theorem push (serial : Nat) (size : Nat × Nat) :
    ∃ b, ConfigureArray.push serial size a = .ok (q.push serial size).1 b ∧ Represents b (q.push serial size).2 := by
  rw [ConfigureArray.push, bind_run, h.latestSize, ConfigureQueue.push]
  dsimp only
  rw [bind_run, get_run]
  dsimp only
  by_cases hsame : q.latestSize = some size
  · rw [if_pos hsame, if_pos hsame]
    exact ⟨_, rfl, h.slots, h.len, h.lastAcked, rfl⟩
  · rw [if_neg hsame, if_neg hsame]
    by_cases hfull : q.pending.length = maxPendingConfigures
    · rw [if_pos (h.len.trans hfull), dif_pos hfull]
      exact ⟨_, rfl, h.slots, h.len, h.lastAcked, rfl⟩
    · have hlt : q.pending.length < maxPendingConfigures := Nat.lt_of_le_of_ne q.bounded hfull
      have hroom : a.len < a.pending.length := by
        rw [h.len, h.size]
        exact hlt
      rw [if_neg (by rw [h.len]; exact hfull), dif_neg hfull, store, if_pos hroom]
      refine ⟨_, rfl, ?_, ?_, h.lastAcked, h.deferred⟩
      · obtain ⟨room, hroom⟩ : ∃ room, maxPendingConfigures - q.pending.length = room + 1 :=
          ⟨maxPendingConfigures - q.pending.length - 1, by omega⟩
        grind [h.slots, h.len, set_append_right]
      grind [h.len]

theorem filled (s : ConfigureArray) : (slice a.pending 0 a.len : Call _) s = .ok (q.pending.map some) s := by
  have htake : (a.pending.drop 0).take (a.len - 0) = q.pending.map some := by
    rw [drop_zero, Nat.sub_zero, h.slots, h.len]
    exact take_left' (length_map _)
  rw [slice, htake, if_pos ⟨Nat.zero_le _, by rw [h.size, h.len]; exact q.bounded⟩, pure_run]

end

theorem find (q : ConfigureQueue) (serial : Nat) :
    (q.pending.map some).findIdx? (hasSerial serial) = q.pending.findIdx? fun configure => configure.serial = serial := by
  rw [findIdx?_map]
  rfl

theorem moved (h : Represents a q) (hi : i < q.pending.length) (s : ConfigureArray) :
    ∃ rest, copyWithin a.pending (i + 1) a.len s = .ok ((q.pending.drop (i + 1)).map some ++ rest) s ∧
      ((q.pending.drop (i + 1)).map some ++ rest).length = maxPendingConfigures := by
  have hslice : (a.pending.drop (i + 1)).take (a.len - (i + 1)) = (q.pending.drop (i + 1)).map some := by
    rw [← drop_take, h.slots, h.len, take_left' (length_map _), map_drop]
  have hle : a.len ≤ a.pending.length := by
    rw [h.size, h.len]
    exact q.bounded
  refine ⟨a.pending.drop ((q.pending.drop (i + 1)).map some).length, ?_, ?_⟩
  · rw [copyWithin, slice, hslice, if_pos ⟨by rw [h.len]; exact hi, hle⟩]
    rfl
  grind [h.size]

variable {serial : Nat}

theorem ack_some (h : Represents a q) {deferred : Option (Nat × Nat)} {q' : ConfigureQueue}
    (hack : q.ack serial = some (deferred, q')) :
    ∃ b, ConfigureArray.ack serial a = .ok deferred b ∧ Represents b q' := by
  rw [ConfigureQueue.ack] at hack
  split at hack
  case h_1 => cases hack
  case h_2 configure hfind =>
    cases hack
    have hserial := find?_some hfind
    have hi : q.pending.findIdx (fun configure => decide (configure.serial = serial)) < q.pending.length :=
      findIdx_lt_length_of_exists ⟨configure, mem_of_find?_eq_some hfind, hserial⟩
    have hindex := findIdx?_eq_some_iff_findIdx_eq.mpr ⟨hi, rfl⟩
    rw [find?_eq_getElem?_findIdx, getElem?_eq_getElem hi] at hfind
    set i := q.pending.findIdx fun configure => decide (configure.serial = serial)
    obtain ⟨rest, hmoved, hlength⟩ := h.moved hi a
    have hlen : a.len - (i + 1) = ((q.pending.drop (i + 1)).map some).length := by
      rw [length_map, length_drop, h.len]
    set acked : ConfigureQueue := ⟨q.pending.drop (i + 1), some configure, none, _⟩
    set b : ConfigureArray := ⟨(q.pending.drop (i + 1)).map some ++
      replicate (maxPendingConfigures - (q.pending.drop (i + 1)).length) none, a.len - (i + 1), some configure, none⟩
    have hb : Represents b acked := ⟨rfl, hlen.trans (length_map _), rfl, rfl⟩
    refine ⟨b, ?_, hb⟩
    have hfill : fillFrom ((q.pending.drop (i + 1)).map some ++ rest) (a.len - (i + 1)) a = .ok b.pending a := by
      rw [fillFrom, hlen, if_pos (by grind), take_left, hlength, length_map]
      rfl
    have hsub : (subUsize a.len (i + 1) : Call _) a = .ok (a.len - (i + 1)) a := by
      rw [subUsize, if_pos (by rw [h.len]; exact hi), pure_run]
    have hback := hb.handBack a.deferred
    rw [h.deferred] at hback
    rw [ConfigureArray.ack, bind_run, get_run]
    dsimp only
    rw [bind_run, h.filled a]
    dsimp only
    rw [find, hindex, okOr_some, bind_run, pure_run]
    dsimp only
    rw [h.slot hi, Option.join_some, hfind, expect_some, bind_run, pure_run]
    dsimp only
    rw [bind_run, hmoved]
    dsimp only
    rw [bind_run, hsub]
    dsimp only
    rw [bind_run, hfill, h.deferred]
    exact hback

theorem ack_none (h : Represents a q) (hack : q.ack serial = none) :
    ConfigureArray.ack serial a = .error (.error ()) a := by
  have hnone : q.pending.findIdx? (fun configure => configure.serial = serial) = none := by
    rw [ConfigureQueue.ack] at hack
    split at hack
    case h_1 hfind => simpa using hfind
    case h_2 => cases hack
  rw [ConfigureArray.ack, bind_run, get_run]
  dsimp only
  rw [bind_run, h.filled a]
  dsimp only
  rw [find, hnone, okOr_none, bind_run, fail_run]

end Represents

/-! ### Runs -/

/-- The calls on a queue: its own, and the protocol's acknowledgement, which asks for a size that comes back again. -/
inductive LockRequest where
  | push (serial : Nat) (size : Nat × Nat)
  | ack (serial : Nat)
  | ackConfigure (serial next : Nat)

/-- The serials that a call may send a configure under. -/
def LockRequest.serials : LockRequest → List Nat
  | .push serial _ => [serial]
  | .ack _ => []
  | .ackConfigure _ next => [next]

/-- What has happened on a queue. The first `passed` configures are acknowledged or passed over; `handed` is a
size that an `ack` gave back to its caller and that no push has followed. -/
structure History where
  sent : List LockConfigure
  passed : Nat
  requested : Option (Nat × Nat)
  handed : Option (Nat × Nat)

namespace History

def new : History := ⟨[], 0, none, none⟩

variable (h : History)

def push (sent : Option LockConfigure) (size : Nat × Nat) : History :=
  { h with
    sent := h.sent ++ sent.toList
    requested := some size
    handed := none }

def ack (serial : Nat) (deferred : Option (Nat × Nat)) : History :=
  { h with
    passed := h.sent.findIdx (fun configure => configure.serial = serial) + 1
    handed := deferred.or h.handed }

def ackConfigure (serial : Nat) (sent : Option LockConfigure) : History :=
  { h with
    sent := h.sent ++ sent.toList
    passed := h.sent.findIdx (fun configure => configure.serial = serial) + 1 }

@[simp] theorem push_none_sent (h : History) (size : Nat × Nat) : (h.push none size).sent = h.sent := append_nil _

@[simp] theorem ackConfigure_none_sent (h : History) (serial : Nat) : (h.ackConfigure serial none).sent = h.sent :=
  append_nil _

end History

/-- `none` where the call panics. -/
def serve (s : ConfigureArray × History) : LockRequest → Option (ConfigureArray × History)
  | .push serial size =>
    match ConfigureArray.configureSurface serial size s.1 with
    | .ok sent a => some (a, s.2.push sent size)
    | .error _ _ => none
  | .ack serial =>
    match ConfigureArray.ack serial s.1 with
    | .ok deferred a => some (a, s.2.ack serial deferred)
    | .error (.error ()) a => some (a, s.2)
    | .error _ _ => none
  | .ackConfigure serial next =>
    match ConfigureArray.ackConfigure serial next s.1 with
    | .ok sent a => some (a, s.2.ackConfigure serial sent)
    | .error (.error ()) a => some (a, s.2)
    | .error _ _ => none

def serveAll (requests : List LockRequest) : Option (ConfigureArray × History) :=
  requests.foldlM serve (ConfigureArray.new, History.new)

structure Sound (q : ConfigureQueue) (h : History) : Prop where
  pending : q.pending = h.sent.drop h.passed
  bounded : h.passed ≤ h.sent.length
  distinct : (h.sent.map LockConfigure.serial).Nodup
  latest : q.latestSize = h.sent.getLast?.map LockConfigure.size
  full : q.deferred ≠ none → q.pending.length = maxPendingConfigures
  apart : q.deferred = none ∨ h.handed = none
  requested : h.requested = (q.deferred.or h.handed).or (h.sent.getLast?.map LockConfigure.size)

namespace Sound

variable {q q' : ConfigureQueue} {h : History}

theorem new : Sound ConfigureQueue.new History.new where
  pending := rfl
  bounded := le_rfl
  distinct := nodup_nil
  latest := rfl
  full := fun hne => absurd rfl hne
  apart := .inl rfl
  requested := rfl

/-- A queue with room sends a size that is not its latest. -/
theorem send (hs : Sound q h) (configure : LockConfigure) (hserial : configure.serial ∉ h.sent.map LockConfigure.serial)
    (hq : q'.pending = q.pending ++ [configure]) (hdeferred : q'.deferred = none) {requested handed : Option (Nat × Nat)}
    (hrequested : requested = handed.or (some configure.size)) :
    Sound q' ⟨h.sent ++ [configure], h.passed, requested, handed⟩ where
  pending := by rw [hq, hs.pending, drop_append_of_le_length hs.bounded]
  bounded := by
    rw [length_append]
    exact hs.bounded.trans (Nat.le_add_right _ _)
  distinct := by
    grind [hs.distinct]
  latest := by
    grind [ConfigureQueue.latestSize]
  full := fun hne => absurd hdeferred hne
  apart := .inl hdeferred
  requested := by
    grind

variable {serial : Nat}

theorem push (hs : Sound q h) (hserial : serial ∉ h.sent.map LockConfigure.serial) (size : Nat × Nat) :
    Sound (q.push serial size).2 (h.push (q.push serial size).1 size) := by
  rw [ConfigureQueue.push]
  by_cases hsame : q.latestSize = some size
  · rw [if_pos hsame]
    constructor
    · rw [History.push_none_sent]
      exact hs.pending
    · rw [History.push_none_sent]
      exact hs.bounded
    · rw [History.push_none_sent]
      exact hs.distinct
    · rw [History.push_none_sent]
      exact hs.latest
    · exact fun hne => absurd rfl hne
    · exact .inl rfl
    · rw [History.push_none_sent]
      exact hsame.symm.trans hs.latest
  · rw [if_neg hsame]
    by_cases hfull : q.pending.length = maxPendingConfigures
    · rw [dif_pos hfull]
      constructor
      · rw [History.push_none_sent]
        exact hs.pending
      · rw [History.push_none_sent]
        exact hs.bounded
      · rw [History.push_none_sent]
        exact hs.distinct
      · rw [History.push_none_sent]
        exact hs.latest
      · exact fun _ => hfull
      · exact .inr rfl
      · rfl
    · grind [hs.full, hs.send, History.push]

variable {deferred : Option (Nat × Nat)}

theorem ack_some (hs : Sound q h) (hack : q.ack serial = some (deferred, q')) :
    ∃ i, (∃ configure, h.sent[i]? = some configure ∧ configure.serial = serial ∧ q'.lastAcked = some configure) ∧
      h.passed ≤ i ∧ h.sent.findIdx (fun configure => configure.serial = serial) = i ∧
      q'.pending = h.sent.drop (i + 1) ∧ q'.deferred = none ∧
      deferred = q.deferred.filter fun size => q'.latestSize ≠ some size := by
  have hacknowledge := @acknowledge_eq_find _ _ _ LockConfigure.serial serial q.pending
  grind -linarith [ConfigureQueue.ack, hs.pending, acknowledge_drop, hs.distinct]

theorem latest_ack {i : Nat} {configure : LockConfigure} (hget : h.sent[i]? = some configure)
    (hacked : q'.lastAcked = some configure) (hpending : q'.pending = h.sent.drop (i + 1)) :
    q'.latestSize = h.sent.getLast?.map LockConfigure.size := by
  grind [ConfigureQueue.latestSize]

theorem ack (hs : Sound q h) (hack : q.ack serial = some (deferred, q')) : Sound q' (h.ack serial deferred) := by
  obtain ⟨i, ⟨configure, hget, -, hacked⟩, -, hindex, hpending, hdeferred, hback⟩ := hs.ack_some hack
  have hlatest := latest_ack hget hacked hpending
  have hi := (List.getElem?_eq_some_iff.mp hget).1
  constructor
  · rw [History.ack, hindex]
    exact hpending
  · rw [History.ack, hindex]
    exact hi
  · exact hs.distinct
  · exact hlatest
  · exact fun hne => absurd hdeferred hne
  · exact .inl hdeferred
  · change h.requested = (q'.deferred.or (deferred.or h.handed)).or (h.sent.getLast?.map LockConfigure.size)
    rw [hs.requested, hdeferred, hback, hlatest]
    rcases hs.apart with hnone | hnone
    · rw [hnone]
      rfl
    · cases q.deferred with
      | none => rfl
      | some size => grind

/-- The protocol's acknowledgement sends a size that comes back: the acknowledged configure has made room. -/
theorem ackConfigure (hs : Sound q h) {serial next : Nat} {size : Nat × Nat} (hnext : next ∉ h.sent.map LockConfigure.serial)
    (hack : q.ack serial = some (some size, q')) :
    Sound (q'.push next size).2 (h.ackConfigure serial (q'.push next size).1) := by
  have hacked := hs.ack hack
  obtain ⟨i, ⟨configure, hget, -, -⟩, hi, -, hpending, hdeferred, hback⟩ := hs.ack_some hack
  obtain ⟨hdefer, hsize⟩ := Option.filter_eq_some_iff.mp hback.symm
  rw [decide_eq_true_eq] at hsize
  have hhanded : h.handed = none := by
    rcases hs.apart with hnone | hnone
    · rw [hnone] at hdefer
      cases hdefer
    · exact hnone
  have hroom : q'.pending.length ≠ maxPendingConfigures := by
    have hlength := congrArg List.length hs.pending
    have hfull := q.bounded
    have hlt := (List.getElem?_eq_some_iff.mp hget).1
    rw [hpending, length_drop]
    rw [length_drop] at hlength
    omega
  have hrequested : h.requested = some size := by
    rw [hs.requested, hdefer]
    rfl
  rw [ConfigureQueue.push, if_neg hsize, dif_neg hroom]
  refine hacked.send ⟨next, size⟩ hnext ?_ ?_ ?_
  · rfl
  · exact hdeferred
  grind

theorem ack_quiet (hs : Sound q h) (hack : q.ack serial = some (none, q')) : Sound q' (h.ackConfigure serial none) := by
  have hacked := hs.ack hack
  have hsame : h.ackConfigure serial none = h.ack serial none := by
    rw [History.ackConfigure, Option.toList_none, append_nil]
    rfl
  rw [hsame]
  exact hacked

end Sound

variable {q : ConfigureQueue} {size : Nat × Nat}

theorem push_serial {serial : Nat} {configure : LockConfigure}
    (h : configure ∈ (q.push serial size).1.toList) : configure.serial = serial := by
  grind [ConfigureQueue.push]

theorem serial_sent {sent : List LockConfigure} {serial n : Nat}
    (h : n ∈ (sent ++ (q.push serial size).1.toList).map LockConfigure.serial) :
    n ∈ sent.map LockConfigure.serial ∨ n ∈ [serial] := by
  rw [map_append, mem_append] at h
  apply h.imp_right
  intro hn
  obtain ⟨configure, hmem, rfl⟩ := mem_map.mp hn
  exact mem_singleton.mpr (push_serial hmem)

variable {a : ConfigureArray} {h : History}

/-- A call ends, and the queue goes on being what its history leaves outstanding. -/
theorem serve_sound (hr : Represents a q) (hs : Sound q h)
    (request : LockRequest) (hfresh : ∀ serial ∈ request.serials, serial ∉ h.sent.map LockConfigure.serial) :
    ∃ a' h' q', serve (a, h) request = some (a', h') ∧ Represents a' q' ∧ Sound q' h' ∧
      (∀ serial ∈ h'.sent.map LockConfigure.serial, serial ∈ h.sent.map LockConfigure.serial ∨ serial ∈ request.serials) ∧
      ((∀ serial, request ≠ .ack serial) → h.handed = none → h'.handed = none) := by
  cases request with
  | push serial size =>
    obtain ⟨b, hpush, hb⟩ := hr.push serial size
    refine ⟨b, _, _, ?_, hb, hs.push (hfresh serial (mem_singleton_self _)) size, fun n hn => serial_sent hn,
      fun _ _ => rfl⟩
    rw [serve, ConfigureArray.configureSurface, hpush]
  | ack serial =>
    cases hack : q.ack serial with
    | none => grind +splitImp +splitIndPred [serve, hr.ack_none]
    | some result =>
      obtain ⟨b, hrun, hb⟩ := hr.ack_some hack
      refine ⟨b, _, _, ?_, hb, hs.ack hack, fun s hmem => .inl hmem, fun hne => absurd rfl (hne serial)⟩
      rw [serve, hrun]
  | ackConfigure serial next =>
    cases hack : q.ack serial with
    | none =>
      refine ⟨a, h, q, ?_, hr, hs, fun s hmem => .inl hmem, fun _ hhanded => hhanded⟩
      rw [serve, ConfigureArray.ackConfigure, bind_run, hr.ack_none hack]
    | some result =>
      obtain ⟨deferred, q'⟩ := result
      obtain ⟨b, hrun, hb⟩ := hr.ack_some hack
      cases deferred with
      | none =>
        refine ⟨b, h.ackConfigure serial none, q', ?_, hb, hs.ack_quiet hack, fun s hmem => .inl ?_,
          fun _ hhanded => hhanded⟩
        · rw [serve, ConfigureArray.ackConfigure, bind_run, hrun]
          rfl
        · rwa [History.ackConfigure_none_sent] at hmem
      | some size =>
        obtain ⟨c, hpush, hc⟩ := hb.push next size
        refine ⟨c, _, _, ?_, hc, hs.ackConfigure (hfresh next (mem_singleton_self _)) hack, fun n hn => serial_sent hn,
          fun _ hhanded => hhanded⟩
        rw [serve, ConfigureArray.ackConfigure, bind_run, hrun]
        dsimp only
        rw [ConfigureArray.configureSurface, hpush]

structure Kept (a : ConfigureArray) (h : History) : Prop where
  /-- The pending configures are those that are neither acknowledged nor passed over, oldest first. -/
  pending : a.pending.take a.len = (h.sent.drop h.passed).map some
  bounded : a.len ≤ maxPendingConfigures
  /-- Exactly the pending serials are accepted. -/
  accepted : ∀ serial, (∃ deferred b, ConfigureArray.ack serial a = .ok deferred b) ↔
    ∃ configure ∈ h.sent.drop h.passed, configure.serial = serial
  /-- An accepted one goes, and with it all that are older. -/
  dropped : ∀ serial deferred b, ConfigureArray.ack serial a = .ok deferred b →
    ∃ i configure, h.passed ≤ i ∧ h.sent[i]? = some configure ∧ configure.serial = serial ∧ b.lastAcked = some configure ∧
      b.pending.take b.len = (h.sent.drop (i + 1)).map some
  refused : ∀ serial fault b, ConfigureArray.ack serial a = .error fault b → fault = .error () ∧ b = a
  latest : ConfigureArray.latestSize a = .ok (h.sent.getLast?.map LockConfigure.size) a
  requested : h.requested = (a.deferred.or h.handed).or (h.sent.getLast?.map LockConfigure.size)

theorem Represents.taken (hr : Represents a q) : a.pending.take a.len = q.pending.map some := by
  rw [hr.slots, hr.len]
  exact take_left' (length_map _)

theorem Sound.kept (hr : Represents a q) (hs : Sound q h) :
    Kept a h where
  pending := by rw [hr.taken, hs.pending]
  bounded := by
    rw [hr.len]
    exact q.bounded
  accepted := by
    intro serial
    have hnone : q.ack serial = none ↔ ∀ configure ∈ h.sent.drop h.passed, configure.serial ≠ serial := by
      rw [← hs.pending, ← acknowledge_eq_none, acknowledge_eq_find, Option.map_eq_none_iff, ConfigureQueue.ack]
      split
      case h_1 hfind => simp [hfind]
      case h_2 hfind => simp [hfind]
    grind [hr.ack_none, hr.ack_some, ConfigureQueue.ack]
  dropped := by
    intro serial deferred b hrun
    cases hack : q.ack serial with
    | none =>
      rw [hr.ack_none hack] at hrun
      cases hrun
    | some result => grind +splitImp +splitIndPred [hr.ack_some, hs.ack_some]
  refused := by
    intro serial fault b hrun
    cases hack : q.ack serial with
    | none => grind [hr.ack_none]
    | some result => grind [hr.ack_some]
  latest := by rw [hr.latestSize, hs.latest]
  requested := by rw [hs.requested, hr.deferred]

theorem serveAll_sound (requests : List LockRequest) (hr : Represents a q) (hs : Sound q h)
    (hdistinct : (requests.flatMap LockRequest.serials).Nodup)
    (hfresh : ∀ serial ∈ requests.flatMap LockRequest.serials, serial ∉ h.sent.map LockConfigure.serial) :
    ∃ a' h', requests.foldlM serve (a, h) = some (a', h') ∧ Kept a' h' ∧
      ((∀ serial, LockRequest.ack serial ∉ requests) → h.handed = none → h'.handed = none) := by
  induction requests generalizing a q h with
  | nil => exact ⟨a, h, rfl, hs.kept hr, fun _ hhanded => hhanded⟩
  | cons request requests ih =>
    simp only [flatMap_cons, mem_append] at hfresh
    obtain ⟨a', h', q', hserve, hr', hs', hsent, hhanded⟩ :=
      serve_sound hr hs request fun serial hserial => hfresh serial (.inl hserial)
    grind

/-- Over every sequence of calls that send under distinct serials. A size is only handed out of the queue by a bare
`ack`; `ack_configure`, which is all the protocol calls, asks for it again. -/
theorem configures_kept (requests : List LockRequest) (hdistinct : (requests.flatMap LockRequest.serials).Nodup) :
    ∃ a h, serveAll requests = some (a, h) ∧ Kept a h ∧
      ((∀ serial, LockRequest.ack serial ∉ requests) → h.handed = none) := by
  obtain ⟨a, h, hrun, hkept, hhanded⟩ := serveAll_sound requests Represents.new Sound.new hdistinct fun _ _ => not_mem_nil
  exact ⟨a, h, hrun, hkept, fun hprotocol => hhanded hprotocol rfl⟩

theorem seventeenth_size_kept :
    ∃ a h, serveAll ((List.range 17).map (fun i => .push (i + 1) (i, i)) ++ [.ackConfigure 4 18]) = some (a, h) ∧
      Kept a h ∧ h.handed = none := by
  obtain ⟨a, h, hrun, hkept, hhanded⟩ :=
    configures_kept ((List.range 17).map (fun i => .push (i + 1) (i, i)) ++ [.ackConfigure 4 18]) (by decide)
  exact ⟨a, h, hrun, hkept, hhanded (by simp)⟩

end TensorDE.Wm.LockConfigures
