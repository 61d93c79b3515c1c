import TensorDE.Renderer.Error

set_option linter.dupNamespace false

namespace TensorDE.Renderer

open Effect

structure Extent2D where
  width : UInt32
  height : UInt32
deriving DecidableEq

def Extent2D.isEmpty (extent : Extent2D) : Bool := extent.width = 0 || extent.height = 0

structure RetainedColorTargetPoolDescriptor where
  maxTargets : Nat
  maxRetainedBytes : UInt64
  maxExtent : Extent2D

/-- `F` is the texture format, which the pool only compares. -/
structure RetainedColorTargetRequest (F : Type) where
  extent : Extent2D
  format : F
  additionalUsage : UInt32
deriving DecidableEq

structure TargetKey (F : Type) where
  extent : Extent2D
  format : F
  additionalUsage : UInt32
deriving DecidableEq

structure PoolEntry (T F : Type) where
  key : TargetKey F
  target : T
  allocationSize : Nat
  retireTimeline : Nat
  reservation : Option Nat
  lastUsed : Nat
deriving DecidableEq

/-- A token: it can be copied, kept after its target was given back, and presented twice. -/
structure RetainedColorTargetReservation where
  id : Nat
  acquiredCompletedTimeline : Nat
deriving DecidableEq

structure RetainedPool (T F : Type) where
  descriptor : RetainedColorTargetPoolDescriptor
  entries : List (PoolEntry T F)
  retainedBytes : Nat
  useSerial : Nat
  nextReservation : Nat

variable {T F : Type} [DecidableEq F]

def RetainedColorTargetPoolDescriptor.validate {σ : Type} (descriptor : RetainedColorTargetPoolDescriptor) :
    Op σ Error Unit :=
  if descriptor.maxTargets = 0 then fail (.validation "retained color-target pool requires at least one target")
  else if descriptor.maxRetainedBytes = 0 then
    fail (.validation "retained color-target pool byte limit must be non-zero")
  else if descriptor.maxExtent.isEmpty then
    fail (.validation "retained color-target pool maximum extent must be non-zero")
  else pure ()

variable (request : RetainedColorTargetRequest F)

def RetainedColorTargetRequest.validate {σ : Type}
    (descriptor : RetainedColorTargetPoolDescriptor) : Op σ Error Unit :=
  let limit := descriptor.maxExtent
  let extent := request.extent
  if extent.isEmpty then fail (.validation "retained color-target request extent must be non-zero")
  else if limit.width < extent.width || limit.height < extent.height then
    fail (.validation (s!"retained color-target request {extent.width}x{extent.height} exceeds pool maximum " ++
      s!"{limit.width}x{limit.height}"))
  else pure ()

def TargetKey.ofRequest : TargetKey F :=
  ⟨request.extent, request.format, request.additionalUsage⟩

/-- Neither reserved nor still in use by the device. -/
def PoolEntry.idle (completedTimeline : Nat) (entry : PoolEntry T F) : Bool :=
  entry.reservation.isNone && entry.retireTimeline ≤ completedTimeline

/-- `Vec::swap_remove` without the element it returns. -/
def swapRemove {α : Type} (values : List α) (index : Nat) : List α :=
  match values.getLast? with
  | none => []
  | some last => (values.set index last).dropLast

namespace RetainedPool

def new (descriptor : RetainedColorTargetPoolDescriptor) : Op Unit Error (RetainedPool T F) := do
  descriptor.validate
  pure ⟨descriptor, [], 0, 0, 1⟩

variable (pool : RetainedPool T F)

def poolExhausted : Error :=
  .validation (s!"retained color-target pool is exhausted (targets={pool.descriptor.maxTargets}, " ++
    s!"retained_bytes={pool.retainedBytes}, byte_limit={pool.descriptor.maxRetainedBytes})")

/-- The idle entry with the least `last_used`, the first one of several. -/
def oldestRetired (completedTimeline : Nat) : Nat → List (PoolEntry T F) → Option (Nat × Nat)
  | _, [] => none
  | index, entry :: rest =>
    let later := oldestRetired completedTimeline (index + 1) rest
    if entry.idle completedTimeline then
      match later with
      | some (found, lastUsed) => if lastUsed < entry.lastUsed then some (found, lastUsed) else some (index, entry.lastUsed)
      | none => some (index, entry.lastUsed)
    else later

/-- Whether an allocation does not fit beside the retained ones. -/
def full (allocationSize : Nat) : Bool :=
  decide (pool.descriptor.maxTargets ≤ pool.entries.length) ||
    match checkedAdd pool.retainedBytes allocationSize with
    | none => true
    | some bytes => pool.descriptor.maxRetainedBytes.toNat < bytes

def checkedSub (a b : Nat) : Option Nat := if b ≤ a then some (a - b) else none

/-- The eviction loop. Every round removes an entry, so `entries.len() + 1` rounds are enough. -/
def evict (completedTimeline allocationSize : Nat) : Nat → Op (RetainedPool T F) Error Unit
  | 0 => throw .diverge
  | rounds + 1 => do
    let pool ← get
    if pool.full allocationSize then
      match oldestRetired completedTimeline 0 pool.entries with
      | none => fail pool.poolExhausted
      | some (index, _) => do
        let removed ← expect pool.entries[index]?
        let retainedBytes ← expect (checkedSub pool.retainedBytes removed.allocationSize)
        set { pool with entries := swapRemove pool.entries index, retainedBytes }
        evict completedTimeline allocationSize rounds
    else pure ()

/-- `create` is what the allocator callback answers if it is asked. -/
def acquireWith (request : RetainedColorTargetRequest F) (completedTimeline : UInt64)
    (create : Except Error (T × UInt64)) : Op (RetainedPool T F) Error (T × RetainedColorTargetReservation) := do
  let completed := completedTimeline.toNat
  let pool ← get
  request.validate pool.descriptor
  let key := TargetKey.ofRequest request
  let useSerial := min (pool.useSerial + 1) (2 ^ 64 - 1)
  set { pool with useSerial }
  let reservation : RetainedColorTargetReservation := ⟨pool.nextReservation, completed⟩
  let nextReservation ← okOr (checkedAdd pool.nextReservation 1)
    (.validation "retained target reservation space exhausted")
  set { pool with useSerial, nextReservation }
  match pool.entries.findIdx? fun entry => entry.key = key && entry.idle completed with
  | some index =>
    let entry ← expect pool.entries[index]?
    let entries := pool.entries.set index { entry with reservation := some reservation.id, lastUsed := useSerial }
    set { pool with entries, useSerial, nextReservation }
    pure (entry.target, reservation)
  | none =>
    if pool.descriptor.maxTargets ≤ pool.entries.length && !pool.entries.any (PoolEntry.idle completed) then
      fail pool.poolExhausted
    else do
      let (target, allocationSize) ← match create with
        | .ok created => pure created
        | .error e => fail e
      if allocationSize = 0 || pool.descriptor.maxRetainedBytes < allocationSize then
        fail (.validation (s!"retained color target allocation of {allocationSize} bytes exceeds pool limit " ++
          s!"{pool.descriptor.maxRetainedBytes}"))
      else do
        evict completed allocationSize.toNat (pool.entries.length + 1)
        let pool ← get
        let retainedBytes ← okOr (checkedAdd pool.retainedBytes allocationSize.toNat)
          (.validation "retained byte accounting overflowed")
        let entry := ⟨key, target, allocationSize.toNat, completed, some reservation.id, useSerial⟩
        set { pool with entries := pool.entries ++ [entry], retainedBytes }
        pure (target, reservation)

def stale (reservation : RetainedColorTargetReservation) : Error :=
  .validation s!"retained color-target reservation {reservation.id} is stale"

/-- `validate_reservations`, with the tokens already seen. -/
def validateReservations (seen : List RetainedColorTargetReservation) :
    List RetainedColorTargetReservation → Op (RetainedPool T F) Error Unit
  | [] => if seen = [] then fail (.validation "retained color-target reservation batch must not be empty") else pure ()
  | reservation :: rest => do
    let pool ← get
    if seen.any fun previous => previous.id = reservation.id then
      fail (.validation s!"retained color-target reservation {reservation.id} is duplicated")
    else if !pool.entries.any fun entry => entry.reservation = some reservation.id then fail (stale reservation)
    else validateReservations (seen ++ [reservation]) rest

variable (reservation : RetainedColorTargetReservation)

/-- `reserved_entry`, and what is done to the entry it finds. -/
def updateReserved (update : PoolEntry T F → PoolEntry T F) :
    Op (RetainedPool T F) Error Unit := do
  let pool ← get
  match pool.entries.findIdx? fun entry => entry.reservation = some reservation.id with
  | none => fail (stale reservation)
  | some index =>
    let entry ← expect pool.entries[index]?
    set { pool with entries := pool.entries.set index (update entry) }

def updateEach (update : PoolEntry T F → PoolEntry T F) :
    List RetainedColorTargetReservation → Op (RetainedPool T F) Error Unit
  | [] => pure ()
  | reservation :: rest => do
    updateReserved reservation update
    updateEach update rest

def checkRetirement (retireTimeline : UInt64) : List RetainedColorTargetReservation → Op (RetainedPool T F) Error Unit
  | [] => pure ()
  | reservation :: rest =>
    if retireTimeline.toNat ≤ reservation.acquiredCompletedTimeline then
      fail (.validation (s!"retained color-target retirement timeline {retireTimeline} must be newer than the " ++
        s!"acquisition completed timeline {reservation.acquiredCompletedTimeline}"))
    else checkRetirement retireTimeline rest

variable (reservations : List RetainedColorTargetReservation)

def retireBatch (retireTimeline : UInt64) :
    Op (RetainedPool T F) Error Unit := do
  validateReservations [] reservations
  checkRetirement retireTimeline reservations
  updateEach (fun entry => { entry with retireTimeline := retireTimeline.toNat, reservation := none }) reservations

def releaseBatch : Op (RetainedPool T F) Error Unit := do
  validateReservations [] reservations
  updateEach (fun entry => { entry with reservation := none }) reservations

def retire (retireTimeline : UInt64) :
    Op (RetainedPool T F) Error Unit := retireBatch [reservation] retireTimeline

def release : Op (RetainedPool T F) Error Unit :=
  releaseBatch [reservation]

/-- An error here is a failed `expect`. -/
def rollback : List RetainedColorTargetReservation → Op (RetainedPool T F) Error Unit
  | [] => pure ()
  | reservation :: rest => fun pool =>
    match release reservation pool with
    | .ok () pool => rollback rest pool
    | .error (.error _) pool => .error .panic pool
    | .error fault pool => .error fault pool

/-- The acquisitions of a batch, with those made so far. `create` answers for each position. -/
def acquireEach (completedTimeline : UInt64) (create : Nat → RetainedColorTargetRequest F → Except Error (T × UInt64)) :
    List RetainedColorTargetReservation → List (RetainedColorTargetRequest F) →
      Op (RetainedPool T F) Error (List RetainedColorTargetReservation)
  | acquired, [] => pure acquired
  | acquired, request :: rest => fun pool =>
    match acquireWith request completedTimeline (create acquired.length request) pool with
    | .ok (_, reservation) pool => acquireEach completedTimeline create (acquired ++ [reservation]) rest pool
    | .error (.error e) pool => (do rollback acquired; fail e : Op _ _ _) pool
    | .error fault pool => .error fault pool

/-- The target that a reservation of the batch stands for, beside the reservation. -/
def reservedTarget :
    Op (RetainedPool T F) Error (T × RetainedColorTargetReservation) := do
  let pool ← get
  let entry ← expect (pool.entries.find? fun entry => entry.reservation = some reservation.id)
  pure (entry.target, reservation)

def acquireBatchWith (requests : List (RetainedColorTargetRequest F)) (completedTimeline : UInt64)
    (create : Nat → RetainedColorTargetRequest F → Except Error (T × UInt64)) :
    Op (RetainedPool T F) Error (List (T × RetainedColorTargetReservation)) :=
  if requests = [] then fail (.validation "retained color-target acquisition batch must not be empty")
  else do
    let reservations ← acquireEach completedTimeline create [] requests
    reservations.mapM reservedTarget

/-- The closure of `retain`: the entries kept and the bytes left. -/
def retainBusy (completedTimeline : Nat) :
    List (PoolEntry T F) → Nat → Op (RetainedPool T F) Error (List (PoolEntry T F) × Nat)
  | [], retainedBytes => pure ([], retainedBytes)
  | entry :: rest, retainedBytes =>
    if entry.idle completedTimeline then do
      let retainedBytes ← expect (checkedSub retainedBytes entry.allocationSize)
      retainBusy completedTimeline rest retainedBytes
    else do
      let (kept, retainedBytes) ← retainBusy completedTimeline rest retainedBytes
      pure (entry :: kept, retainedBytes)

def trim (completedTimeline : UInt64) : Op (RetainedPool T F) Error Nat := do
  let pool ← get
  let (entries, retainedBytes) ← retainBusy completedTimeline.toNat pool.entries pool.retainedBytes
  set { pool with entries, retainedBytes }
  pure (pool.entries.length - entries.length)

end RetainedPool

end TensorDE.Renderer
