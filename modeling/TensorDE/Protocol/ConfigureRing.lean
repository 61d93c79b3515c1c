import TensorDE.Lib.Outstanding
import TensorDE.Lib.RingBuffer
import TensorDE.Protocol.Toplevel

set_option linter.dupNamespace false

/-! The configures of a toplevel or popup on their ring, and which acknowledgements are accepted. -/

namespace TensorDE.Protocol.XdgShell

open Effect Outstanding RingBuffers List

variable {T : Type}

/-- The queue as the code keeps it: sixteen slots used in turn. A serial stays in its slot when its entry is taken. -/
structure ConfigureRing (T : Type) where
  entries : List (Option T)
  serials : List Nat
  head : Nat
  len : Nat
deriving DecidableEq

namespace ConfigureRing

abbrev Call (T α : Type) := Op (ConfigureRing T) Unit α

def new : ConfigureRing T := ⟨List.replicate maxPendingConfigures none, List.replicate maxPendingConfigures 0, 0, 0⟩

def load {α : Type} (values : List α) (index : Nat) : Call T α := expect values[index]?

variable {α β γ : Type}

/-- `values[index] = value`. -/
def store {α : Type} (values : List α) (index : Nat) (value : α) : Call T (List α) :=
  if index < values.length then pure (values.set index value) else throw .panic

def dropOldest : Call T Unit := do
  let q ← get
  let entries ← store q.entries q.head none
  let len ← subUsize q.len 1
  set { q with
    entries := entries
    head := (q.head + 1) % maxPendingConfigures
    len := len }

variable (serial : Nat)

def append (value : T) : Call T Unit := do
  let q ← get
  let serials ← store q.serials ((q.head + q.len) % maxPendingConfigures) serial
  let entries ← store q.entries ((q.head + q.len) % maxPendingConfigures) (some value)
  set { q with
    entries := entries
    serials := serials
    len := q.len + 1 }

def push (value : T) : Call T Unit := do
  let q ← get
  if q.len = maxPendingConfigures then do
    dropOldest
    append serial value
  else
    append serial value

def findOffset (q : ConfigureRing T) (serial : Nat) : List Nat → Call T (Option Nat)
  | [] => pure none
  | offset :: offsets => do
    let stored ← load q.serials ((q.head + offset) % maxPendingConfigures)
    let entry ← load q.entries ((q.head + offset) % maxPendingConfigures)
    if stored = serial ∧ entry.isSome then
      pure (some offset)
    else
      findOffset q serial offsets

def dropMany : Nat → Call T Unit
  | 0 => pure ()
  | count + 1 => do
    dropOldest
    dropMany count

def ack : Call T (Option T) := do
  let q ← get
  let found ← findOffset q serial (List.range q.len)
  match found with
  | none => pure none
  | some offset => do
    let entry ← load q.entries ((q.head + offset) % maxPendingConfigures)
    match entry with
    | none => pure none
    | some value => do
      dropMany (offset + 1)
      pure (some value)

def joined (q : ConfigureRing T) : RingBuffer (Nat × T) :=
  ⟨List.zipWith (fun serial entry => entry.map (Prod.mk serial)) q.serials q.entries, q.head, q.len⟩

def contents (q : ConfigureRing T) : List (Nat × T) := q.joined.contents

end ConfigureRing

/-! ### The ring holds the queue -/

theorem zipWith_set (f : α → β → γ) (xs : List α) (ys : List β) (i : Nat) (x : α) (y : β) :
    List.zipWith f (xs.set i x) (ys.set i y) = (List.zipWith f xs ys).set i (f x y) := by
  induction xs generalizing ys i with
  | nil => rfl
  | cons a xs ih =>
    cases ys with
    | nil => cases i <;> rfl
    | cons b ys =>
      cases i with
      | zero => rfl
      | succ i => exact congrArg _ (ih ys i)

theorem zipWith_set_const (f : α → β → γ) {y : β} {z : γ} (hf : ∀ x, f x y = z) (xs : List α) (ys : List β)
    (i : Nat) : List.zipWith f xs (ys.set i y) = (List.zipWith f xs ys).set i z := by
  induction xs generalizing ys i with
  | nil => rfl
  | cons a xs ih =>
    cases ys with
    | nil => cases i <;> rfl
    | cons b ys =>
      cases i with
      | zero => exact congrArg (· :: _) (hf a)
      | succ i => exact congrArg _ (ih ys i)

namespace ConfigureRing

variable {r : ConfigureRing T} {xs : List (Nat × T)} {x : Nat × T}

/-- A ring of the code's size that holds the given entries, oldest first. -/
structure Keeps (r : ConfigureRing T) (xs : List (Nat × T)) : Prop where
  entries : r.entries.length = maxPendingConfigures
  serials : r.serials.length = maxPendingConfigures
  holds : r.joined.Holds xs

namespace Keeps

theorem capacity (h : r.Keeps xs) : r.joined.capacity = maxPendingConfigures := by
  rw [RingBuffer.capacity, joined, length_zipWith, h.entries, h.serials, Nat.min_self]

theorem new : (ConfigureRing.new : ConfigureRing T).Keeps [] where
  entries := length_replicate
  serials := length_replicate
  holds := by
    constructor
    · change 0 < (List.zipWith _ _ _).length
      rw [length_zipWith, ConfigureRing.new, length_replicate, length_replicate]
      decide
    · rfl
    · exact Nat.zero_le _
    · intro i x hx
      cases hx

theorem slot (h : r.Keeps xs) (i : Nat) : r.joined.slot i = (r.head + i) % maxPendingConfigures := by
  rw [RingBuffer.slot, h.capacity]
  rfl

theorem slot_lt (i : Nat) : (r.head + i) % maxPendingConfigures < maxPendingConfigures := Nat.mod_lt _ (by decide)

theorem head_lt (h : r.Keeps xs) : r.head < maxPendingConfigures := by
  rw [← h.capacity]
  exact h.holds.pos

theorem stored (h : r.Keeps xs) {i : Nat} (hi : i < xs.length) :
    r.serials[(r.head + i) % maxPendingConfigures]? = some xs[i].1 ∧
      r.entries[(r.head + i) % maxPendingConfigures]? = some (some xs[i].2) := by
  have hslot := h.holds.getSlot hi
  rw [h.slot] at hslot
  change (List.zipWith _ r.serials r.entries)[_]? = _ at hslot
  rw [getElem?_zipWith] at hslot
  have hserial := getElem?_eq_getElem (l := r.serials) (show (r.head + i) % maxPendingConfigures < r.serials.length by
    rw [h.serials]
    exact slot_lt i)
  have hentry := getElem?_eq_getElem (l := r.entries) (show (r.head + i) % maxPendingConfigures < r.entries.length by
    rw [h.entries]
    exact slot_lt i)
  rw [hserial, hentry] at hslot ⊢
  obtain ⟨value, hvalue, hpair⟩ := Option.map_eq_some_iff.mp (Option.some.inj hslot)
  rw [← hpair, hvalue]
  exact ⟨rfl, rfl⟩

theorem dropOldest (h : r.Keeps (x :: xs)) : ∃ r', ConfigureRing.dropOldest r = .ok () r' ∧ r'.Keeps xs := by
  have hhead : r.head < r.entries.length := by
    rw [h.entries]
    exact h.head_lt
  have hlen : 1 ≤ r.len := by
    rw [show r.len = (x :: xs).length from h.holds.len, length_cons]
    exact Nat.le_add_left 1 _
  refine ⟨⟨r.entries.set r.head none, r.serials, (r.head + 1) % maxPendingConfigures, r.len - 1⟩, ?_, ?_, h.serials, ?_⟩
  · rw [ConfigureRing.dropOldest, bind_run, get_run]
    dsimp only
    rw [store, if_pos hhead, subUsize, if_pos hlen]
    rfl
  · exact length_set.trans h.entries
  · have hfront := h.holds.takeFront.2
    rw [RingBuffer.takeFront, h.capacity] at hfront
    have hset := zipWith_set_const (y := none) (z := none) (fun serial (entry : Option T) => entry.map (Prod.mk serial))
      (fun _ => rfl) r.serials r.entries r.head
    rw [joined, hset]
    exact hfront

section

variable (h : r.Keeps xs)
include h

theorem append (hroom : xs.length < maxPendingConfigures) (serial : Nat) (value : T) :
    ∃ r', ConfigureRing.append serial value r = .ok () r' ∧ r'.Keeps (xs ++ [(serial, value)]) := by
  have hserials : (r.head + r.len) % maxPendingConfigures < r.serials.length := by
    rw [h.serials]
    exact slot_lt _
  have hentries : (r.head + r.len) % maxPendingConfigures < r.entries.length := by
    rw [h.entries]
    exact slot_lt _
  refine ⟨⟨r.entries.set ((r.head + r.len) % maxPendingConfigures) (some value),
    r.serials.set ((r.head + r.len) % maxPendingConfigures) serial, r.head, r.len + 1⟩, ?_, ?_, ?_, ?_⟩
  · rw [ConfigureRing.append, bind_run, get_run]
    dsimp only
    rw [store, if_pos hserials, store, if_pos hentries]
    rfl
  · exact length_set.trans h.entries
  · exact length_set.trans h.serials
  · have happend := h.holds.append (by rw [h.capacity]; exact hroom) (serial, value)
    rw [RingBuffer.append, RingBuffer.setSlot, h.slot] at happend
    rw [joined, zipWith_set]
    exact happend

theorem push (serial : Nat) (value : T) : ∃ r', ConfigureRing.push serial value r = .ok () r' ∧
      r'.Keeps (xs.drop (xs.length + 1 - maxPendingConfigures) ++ [(serial, value)]) := by
  have hlen : r.len = xs.length := h.holds.len
  have hle : xs.length ≤ maxPendingConfigures := by
    rw [← h.capacity]
    exact h.holds.fits
  rw [ConfigureRing.push, bind_run, get_run]
  dsimp only
  by_cases hfull : xs.length = maxPendingConfigures
  · obtain ⟨x, rest, rfl⟩ := exists_cons_of_length_eq_add_one (n := 15) hfull
    obtain ⟨r', hdrop, h'⟩ := h.dropOldest
    have hroom : rest.length < maxPendingConfigures := Nat.lt_of_succ_le hle
    obtain ⟨r'', happend, h''⟩ := h'.append hroom serial value
    grind [bind_run, Nat.add_sub_cancel_left]
  · rw [if_neg (by rw [hlen]; exact hfull)]
    have hroom : xs.length < maxPendingConfigures := Nat.lt_of_le_of_ne hle hfull
    rw [Nat.sub_eq_zero_of_le hroom, drop_zero]
    exact h.append hroom serial value

theorem dropMany {count : Nat} (hcount : count ≤ xs.length) :
    ∃ r', ConfigureRing.dropMany count r = .ok () r' ∧ r'.Keeps (xs.drop count) := by
  induction count generalizing r xs with
  | zero => exact ⟨r, rfl, h⟩
  | succ count ih =>
    cases xs with
    | nil => cases hcount
    | cons x xs =>
      obtain ⟨r', hdrop, h'⟩ := h.dropOldest
      obtain ⟨r'', hmany, h''⟩ := ih h' (Nat.le_of_succ_le_succ hcount)
      refine ⟨r'', ?_, h''⟩
      rw [ConfigureRing.dropMany, bind_run, hdrop]
      exact hmany

theorem findOffset (serial k n : Nat) (hn : k + n = xs.length) (s : ConfigureRing T) :
    ConfigureRing.findOffset r serial (List.range' k n) s =
      .ok (((xs.drop k).findIdx? fun entry => entry.1 = serial).map (k + ·)) s := by
  induction n generalizing k with
  | zero =>
    rw [drop_eq_nil_of_le (by omega)]
    rfl
  | succ n ih =>
    have hk : k < xs.length := by omega
    obtain ⟨hserial, hentry⟩ := h.stored hk
    rw [range'_succ, ConfigureRing.findOffset, load, load, hserial, hentry, drop_eq_getElem_cons hk,
      findIdx?_cons]
    rw [expect_some, bind_run, pure_run]
    dsimp only
    rw [expect_some, bind_run, pure_run]
    dsimp only
    by_cases heq : xs[k].1 = serial
    · rw [if_pos ⟨heq, rfl⟩, if_pos (decide_eq_true heq)]
      rfl
    · rw [if_neg (fun hand => heq hand.1), if_neg (by simpa using heq), ih (k + 1) (by omega), Option.map_map]
      congr 2
      grind

theorem ack (serial : Nat) :
    match acknowledge Prod.fst serial xs with
    | none => ConfigureRing.ack serial r = .ok none r
    | some (entry, rest) => ∃ r', ConfigureRing.ack serial r = .ok (some entry.2) r' ∧ r'.Keeps rest := by
  have hlen : r.len = xs.length := h.holds.len
  have hfind := h.findOffset serial 0 xs.length (Nat.zero_add _) r
  rw [drop_zero] at hfind
  rw [acknowledge_eq_find, ConfigureRing.ack, bind_run, get_run]
  dsimp only
  rw [bind_run, hlen, range_eq_range', hfind]
  cases hindex : xs.findIdx? fun entry => entry.1 = serial with
  | none =>
    have hnone : (xs.find? fun entry => entry.1 = serial) = none := by
      simpa using hindex
    rw [hnone]
    rfl
  | some i =>
    obtain ⟨hi, hidx⟩ := findIdx?_eq_some_iff_findIdx_eq.mp hindex
    obtain ⟨r', hmany, h'⟩ := h.dropMany (Nat.succ_le_of_lt hi)
    rw [find?_eq_getElem?_findIdx, hidx, getElem?_eq_getElem hi, Option.map_some]
    dsimp only [Option.map_some]
    rw [Nat.zero_add]
    refine ⟨r', ?_, h'⟩
    rw [load, (h.stored hi).2, expect_some, bind_run, pure_run]
    dsimp only
    rw [bind_run, hmany]
    rfl

theorem contents : r.contents = xs := h.holds.contents_eq

end

end Keeps

end ConfigureRing

/-! ### Role objects -/

structure RoleConfigure (T : Type) where
  state : T
  generation : Nat
deriving DecidableEq

/-- What a toplevel or popup keeps of its configures. A new mapping has a new generation; the configures of the old
one stay. -/
structure Role (T : Type) where
  configures : ConfigureRing (RoleConfigure T)
  lastAcked : Option (RoleConfigure T)
  generation : Nat
deriving DecidableEq

namespace Role

def new : Role T := ⟨ConfigureRing.new, none, 1⟩

variable (role : Role T)

/-- `none` where the call panics, here and below. -/
def sendConfigure (serial : Nat) (state : T) : Option (Role T) :=
  match ConfigureRing.push serial ⟨state, role.generation⟩ role.configures with
  | .ok _ configures => some { role with configures := configures }
  | .error _ _ => none

/-- `false` is the protocol error `invalid_serial`. -/
def ackConfigure (serial : Nat) : Option (Bool × Role T) :=
  match ConfigureRing.ack serial role.configures with
  | .ok (some configure) configures =>
    if configure.generation = role.generation then
      some (true, { role with
        configures := configures
        lastAcked := some configure })
    else
      some (true, { role with configures := configures })
  | .ok none configures => some (false, { role with configures := configures })
  | .error _ _ => none

def unmap : Role T :=
  { role with
    lastAcked := none
    generation := (role.generation + 1) % 2 ^ 64 }

end Role

/-! ### Runs -/

inductive RoleEvent (T : Type) where
  | send (serial : Nat) (state : T)
  | ack (serial : Nat)
  | unmap

/-- The configures that were sent on a role object, and how many of them an accepted acknowledgement has settled. -/
structure ConfigureHistory (T : Type) where
  sent : List (Nat × RoleConfigure T)
  acked : Nat

namespace ConfigureHistory

def new : ConfigureHistory T := ⟨[], 0⟩

variable (h : ConfigureHistory T)

def settled : Nat := max h.acked (h.sent.length - maxPendingConfigures)

def outstanding : List (Nat × RoleConfigure T) := h.sent.drop h.settled

def ack (serial : Nat) : ConfigureHistory T :=
  match h.outstanding.findIdx? fun entry => entry.1 = serial with
  | none => h
  | some i => { h with acked := h.settled + i + 1 }

end ConfigureHistory

def serve (s : Role T × ConfigureHistory T) : RoleEvent T → Option (Role T × ConfigureHistory T)
  | .send serial state =>
    (s.1.sendConfigure serial state).map fun role =>
      (role, { s.2 with sent := s.2.sent ++ [(serial, ⟨state, s.1.generation⟩)] })
  | .ack serial => (s.1.ackConfigure serial).map fun result => (result.2, s.2.ack serial)
  | .unmap => some (s.1.unmap, s.2)

def serveAll (events : List (RoleEvent T)) : Option (Role T × ConfigureHistory T) :=
  events.foldlM serve (Role.new, ConfigureHistory.new)

structure Kept (role : Role T) (h : ConfigureHistory T) : Prop where
  pending : role.configures.contents = h.outstanding
  /-- A refused acknowledgement changes nothing. Its serial was never sent, or it or a later one was acknowledged, or
  sixteen others were sent after it. -/
  refused : ∀ serial role', role.ackConfigure serial = some (false, role') → role' = role ∧
    ∀ i entry, h.sent[i]? = some entry → entry.1 = serial → i < h.acked ∨ i + maxPendingConfigures < h.sent.length
  /-- An accepted one finds the configure that was sent with its serial and leaves those sent after it. -/
  accepted : ∀ serial role', role.ackConfigure serial = some (true, role') →
    ∃ i configure, h.acked ≤ i ∧ h.sent[i]? = some (serial, configure) ∧
      ConfigureRing.ack serial role.configures = .ok (some configure) role'.configures ∧
      role'.configures.contents = h.sent.drop (i + 1)
  answered : ∀ serial, ∃ result, role.ackConfigure serial = some result

structure Sound (role : Role T) (h : ConfigureHistory T) : Prop where
  keeps : role.configures.Keeps h.outstanding
  acked : h.acked ≤ h.sent.length

namespace Sound

variable {role : Role T} {h : ConfigureHistory T}

theorem new : Sound (Role.new : Role T) ConfigureHistory.new := ⟨ConfigureRing.Keeps.new, le_rfl⟩

theorem settled_le (hs : Sound role h) : h.settled ≤ h.sent.length := max_le hs.acked (Nat.sub_le _ _)

theorem send (hs : Sound role h) (serial : Nat) (state : T) : ∃ role', role.sendConfigure serial state = some role' ∧
      Sound role' { h with sent := h.sent ++ [(serial, ⟨state, role.generation⟩)] } := by
  obtain ⟨configures, hpush, hkeeps⟩ := hs.keeps.push serial ⟨state, role.generation⟩
  refine ⟨{ role with configures := configures }, ?_, ?_, ?_⟩
  · rw [Role.sendConfigure, hpush]
  · have hsettled := hs.settled_le
    rw [ConfigureHistory.settled] at hsettled
    have hdrop : h.outstanding.drop (h.outstanding.length + 1 - maxPendingConfigures) =
        h.sent.drop (max h.acked (h.sent.length + 1 - maxPendingConfigures)) := by
      rw [ConfigureHistory.outstanding, drop_drop, length_drop, ConfigureHistory.settled]
      congr 1
      omega
    rw [hdrop, ← drop_append_of_le_length (by rw [maxPendingConfigures]; omega)] at hkeeps
    rw [ConfigureHistory.outstanding, ConfigureHistory.settled, length_append]
    exact hkeeps
  · rw [length_append]
    exact hs.acked.trans (Nat.le_add_right _ _)

variable {serial : Nat}

theorem ack_none (hs : Sound role h) (hnone : acknowledge Prod.fst serial h.outstanding = none) :
    role.ackConfigure serial = some (false, role) ∧ h.ack serial = h := by
  have hack := hs.keeps.ack serial
  rw [hnone] at hack
  constructor
  · rw [Role.ackConfigure, hack]
  · have hindex : (h.outstanding.findIdx? fun entry => entry.1 = serial) = none := by
      simpa using acknowledge_eq_none.mp hnone
    rw [ConfigureHistory.ack, hindex]

theorem ack_some (hs : Sound role h) {entry : Nat × RoleConfigure T} {rest : List (Nat × RoleConfigure T)}
    (hsome : acknowledge Prod.fst serial h.outstanding = some (entry, rest)) :
    ∃ i role', h.settled ≤ i ∧ h.sent[i]? = some (serial, entry.2) ∧ rest = h.sent.drop (i + 1) ∧
      role.ackConfigure serial = some (true, role') ∧ role'.generation = role.generation ∧
      ConfigureRing.ack serial role.configures = .ok (some entry.2) role'.configures ∧
      role'.configures.Keeps rest ∧ h.ack serial = { h with acked := i + 1 } := by
  have hack := hs.keeps.ack serial
  grind -linarith [acknowledge_position, ConfigureHistory.ack, ConfigureHistory.outstanding, Role.ackConfigure]

theorem settled_acked {i : Nat} (hi : h.settled ≤ i) :
    ({ h with acked := i + 1 } : ConfigureHistory T).settled = i + 1 := by
  grind [ConfigureHistory.settled]

theorem serve (hs : Sound role h) (event : RoleEvent T) :
    ∃ role' h', XdgShell.serve (role, h) event = some (role', h') ∧ Sound role' h' := by
  cases event with
  | send serial state =>
    obtain ⟨role', hsend, hs'⟩ := hs.send serial state
    grind [XdgShell.serve]
  | ack serial =>
    cases hack : acknowledge Prod.fst serial h.outstanding with
    | none => grind [hs.ack_none, XdgShell.serve]
    | some result =>
      obtain ⟨i, role', hi, hget, hrest, hrun, -, -, hkeeps, hghost⟩ := hs.ack_some hack
      have hlt := (List.getElem?_eq_some_iff.mp hget).1
      refine ⟨role', { h with acked := i + 1 }, ?_, ?_, hlt⟩
      · rw [XdgShell.serve, hrun, hghost]
        rfl
      grind [ConfigureHistory.outstanding, settled_acked]
  | unmap => exact ⟨role.unmap, h, rfl, hs.keeps, hs.acked⟩

theorem kept (hs : Sound role h) : Kept role h where
  pending := hs.keeps.contents
  refused := by
    intro serial role' hrefused
    cases hack : acknowledge Prod.fst serial h.outstanding with
    | none =>
      rw [(hs.ack_none hack).1] at hrefused
      cases hrefused
      refine ⟨rfl, fun i entry hget hserial => ?_⟩
      have hnotMem : entry ∉ h.outstanding := fun hmem => acknowledge_eq_none.mp hack entry hmem hserial
      have hi : i < h.settled := by
        by_contra hle
        apply hnotMem
        rw [← Nat.add_sub_cancel' (Nat.not_lt.mp hle), ← getElem?_drop] at hget
        exact mem_of_getElem? hget
      rw [ConfigureHistory.settled] at hi
      omega
    | some result => grind [hs.ack_some]
  accepted := by
    intro serial role' haccepted
    cases hack : acknowledge Prod.fst serial h.outstanding with
    | none => grind [hs.ack_none]
    | some result =>
      obtain ⟨i, role'', hi, hget, hrest, hrun, -, hring, hkeeps, -⟩ := hs.ack_some hack
      rw [hrun] at haccepted
      cases haccepted
      refine ⟨i, result.1.2, (le_max_left _ _).trans hi, hget, hring, ?_⟩
      rw [hkeeps.contents, hrest]
  answered := by
    intro serial
    cases hack : acknowledge Prod.fst serial h.outstanding with
    | none => exact ⟨_, (hs.ack_none hack).1⟩
    | some result => grind [hs.ack_some]

end Sound

theorem foldlM_sound (events : List (RoleEvent T)) {role : Role T} {h : ConfigureHistory T} (hs : Sound role h) :
    ∃ role' h', events.foldlM serve (role, h) = some (role', h') ∧ Sound role' h' := by
  induction events generalizing role h with
  | nil => exact ⟨role, h, rfl, hs⟩
  | cons event events ih =>
    obtain ⟨role', h', hserve, hs'⟩ := hs.serve event
    grind

/-- Over every sequence of configures and acknowledgements of a role object, through all its mappings. -/
theorem acks_kept (events : List (RoleEvent T)) : ∃ role h, serveAll events = some (role, h) ∧ Kept role h := by
  obtain ⟨role, h, hrun, hs⟩ := foldlM_sound events Sound.new
  exact ⟨role, h, hrun, hs.kept⟩

/-- A client that is sixteen configures behind is refused the oldest one, which it never acknowledged. -/
theorem slow_client_refused : ¬ ∀ (events : List (RoleEvent Unit)) (role : Role Unit) (h : ConfigureHistory Unit),
      serveAll events = some (role, h) → ∀ serial role', role.ackConfigure serial = some (false, role') →
        ∀ i entry, h.sent[i]? = some entry → entry.1 = serial → i < h.acked := by
  intro hall
  obtain ⟨role, h, hrun, -⟩ := acks_kept ((List.range 17).map fun i => RoleEvent.send (i + 1) ())
  have hfacts : ((serveAll ((List.range 17).map fun i => RoleEvent.send (i + 1) ())).map fun s =>
      ((s.1.ackConfigure 1).map Prod.fst, s.2.sent[0]?, s.2.acked)) = some (some false, some (1, ⟨(), 1⟩), 0) := by
    decide +kernel
  grind -linarith [Role.ackConfigure]

end TensorDE.Protocol.XdgShell
