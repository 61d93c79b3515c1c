import TensorDE.Lib.Align
import TensorDE.Renderer.Error

set_option linter.dupNamespace false

namespace TensorDE.Renderer

open Effect

structure UploadBeltDescriptor where
  chunkSize : UInt64
  maxChunks : Nat
  maxBytes : UInt64
  offsetAlignment : UInt64
deriving DecidableEq

def validateDescriptor (descriptor : UploadBeltDescriptor) : Except Error Unit :=
  if descriptor.chunkSize = 0 || descriptor.maxChunks = 0 || descriptor.maxBytes = 0 then
    .error (.validation "upload chunk size, maximum chunk count, and byte bound must be non-zero")
  else if descriptor.maxBytes < descriptor.chunkSize then
    .error (.validation "ordinary upload chunk size exceeds the upload byte bound")
  else if descriptor.offsetAlignment < 4 || ¬ descriptor.offsetAlignment.toNat.isPowerOfTwo then
    .error (.validation "upload offset alignment must be a power of two of at least four")
  else .ok ()

/-- A staging buffer. The handle tells buffers apart; the code holds the buffer itself. -/
structure Buffer where
  handle : Nat
  size : Nat
deriving DecidableEq

structure UploadChunk where
  buffer : Buffer
  cursor : Nat
  retireAfter : Nat
deriving DecidableEq

structure UploadSlice where
  chunkIndex : Nat
  offset : Nat
  size : Nat
deriving DecidableEq

structure UploadBelt where
  descriptor : UploadBeltDescriptor
  chunks : List UploadChunk
  touched : List (Nat × Nat)
deriving DecidableEq

/-- `checked_next_power_of_two`. -/
def checkedNextPowerOfTwo (value : Nat) : Option Nat :=
  ((List.range 64).find? fun k => value ≤ 2 ^ k).map (2 ^ ·)

/-- `try_fold` with `checked_add`. -/
def retainedBytes (chunks : List UploadChunk) : Option Nat :=
  chunks.foldlM (fun total chunk => checkedAdd total chunk.buffer.size) 0

namespace UploadBelt

/-- Where a chunk has room: the offset the next range would start at. -/
def room (alignment size : Nat) (chunk : UploadChunk) : Option Nat := do
  guard (chunk.retireAfter = 0)
  let offset ← Align.alignUp chunk.cursor alignment
  let stop ← checkedAdd offset size
  guard (stop ≤ chunk.buffer.size)
  pure offset

def findRoom (alignment size : Nat) : Nat → List UploadChunk → Option (Nat × Nat)
  | _, [] => none
  | index, chunk :: rest =>
    match room alignment size chunk with
    | some offset => some (index, offset)
    | none => findRoom alignment size (index + 1) rest

/-- The index of the chunk, the offset in it and the cursor before. `created` is the allocator's answer
if a new buffer is needed. -/
def reserve (size : Nat) (created : Except Error Nat) : Op UploadBelt Error (Nat × Nat × Nat) := do
  let belt ← get
  let descriptor := belt.descriptor
  match findRoom (max descriptor.offsetAlignment.toNat 4) size 0 belt.chunks with
  | some (index, offset) =>
    let chunk ← expect belt.chunks[index]?
    set { belt with chunks := belt.chunks.set index { chunk with cursor := offset + size } }
    pure (index, offset, chunk.cursor)
  | none =>
    if descriptor.maxChunks ≤ belt.chunks.length then
      fail (.uploadBeltExhausted (.chunkCount descriptor.maxChunks))
    else do
      let chunkSize ← okOr (checkedNextPowerOfTwo (max size descriptor.chunkSize.toNat))
        (.validation "upload chunk size overflows")
      let retained ← okOr (retainedBytes belt.chunks) (.validation "retained upload bytes overflow")
      match checkedAdd retained chunkSize with
      | none => fail (.uploadBeltExhausted (.retainedBytes descriptor.maxBytes.toNat))
      | some total =>
        if descriptor.maxBytes.toNat < total then
          fail (.uploadBeltExhausted (.retainedBytes descriptor.maxBytes.toNat))
        else match created with
          | .error e => fail e
          | .ok handle => do
            let chunk : UploadChunk := ⟨⟨handle, chunkSize⟩, size, 0⟩
            set { belt with chunks := belt.chunks ++ [chunk] }
            pure (belt.chunks.length, 0, 0)

def reclaimCompletedAt (completed : Nat) (chunks : List UploadChunk) : List UploadChunk :=
  chunks.map fun chunk =>
    if chunk.retireAfter ≠ 0 ∧ chunk.retireAfter ≤ completed then { chunk with cursor := 0, retireAfter := 0 } else chunk

/-- Whether a chunk stays, and whether an idle one has now been kept. -/
def retainTrimmedChunk (chunk : UploadChunk) (completed ordinaryChunkSize : Nat) (keptIdle : Bool) : Bool × Bool :=
  if completed < chunk.retireAfter then (true, keptIdle)
  else if !keptIdle && chunk.buffer.size = ordinaryChunkSize then (true, true)
  else (false, keptIdle)

def retainTrimmed (completed ordinaryChunkSize : Nat) : Bool → List UploadChunk → List UploadChunk
  | _, [] => []
  | keptIdle, chunk :: rest =>
    let (keep, keptIdle) := retainTrimmedChunk chunk completed ordinaryChunkSize keptIdle
    if keep then chunk :: retainTrimmed completed ordinaryChunkSize keptIdle rest
    else retainTrimmed completed ordinaryChunkSize keptIdle rest

def trimmed (completed ordinaryChunkSize : Nat) (chunks : List UploadChunk) : List UploadChunk :=
  retainTrimmed completed ordinaryChunkSize false (reclaimCompletedAt completed chunks)

def trimCompleted (completed : Nat) (belt : UploadBelt) : UploadBelt :=
  { belt with chunks := trimmed completed belt.descriptor.chunkSize.toNat belt.chunks }

def oldestPendingFrame (chunks : List UploadChunk) : Option Nat :=
  (chunks.filterMap fun chunk => if chunk.retireAfter ≠ 0 then some chunk.retireAfter else none).min?

end UploadBelt

namespace UploadBatch

open UploadBelt

/-- The record of the cursor before a chunk was first touched. -/
def touch (index previous : Nat) (touched : List (Nat × Nat)) : List (Nat × Nat) :=
  if touched.any fun entry => entry.1 = index then touched else touched ++ [(index, previous)]

/-- `written` is the outcome of the copy into the mapped buffer. -/
def stage (size : Nat) (created : Except Error Nat) (written : Except Error Unit) : Op UploadBelt Error UploadSlice := do
  let (chunkIndex, offset, previous) ← reserve size created
  let belt ← get
  set { belt with touched := touch chunkIndex previous belt.touched }
  match written with
  | .ok () => pure ⟨chunkIndex, offset, size⟩
  | .error e => fail e

/-- The loops of `commit` and `drop`: one update of each touched chunk, by its index. -/
def updateTouched (update : Nat → UploadChunk → UploadChunk) :
    List (Nat × Nat) → List UploadChunk → Option (List UploadChunk)
  | [], chunks => some chunks
  | (index, previous) :: rest, chunks =>
    match chunks[index]? with
    | none => none
    | some chunk => updateTouched update rest (chunks.set index (update previous chunk))

def commit (frame : Nat) : Op UploadBelt Error Unit := do
  let belt ← get
  let chunks ← expect (updateTouched (fun _ chunk => { chunk with retireAfter := frame }) belt.touched belt.chunks)
  set { belt with chunks, touched := [] }

/-- `Drop` of a batch that was not submitted. -/
def rollback : Op UploadBelt Error Unit := do
  let belt ← get
  let chunks ← expect (updateTouched (fun previous chunk => { chunk with cursor := previous }) belt.touched belt.chunks)
  set { belt with chunks, touched := [] }

end UploadBatch

end TensorDE.Renderer
