import TensorDE.Renderer.DescriptorHeap
import TensorDE.Renderer.MemoryPlan

set_option linter.dupNamespace false

namespace TensorDE.Renderer.Memory

open Effect Ranges

structure MemoryAllocatorConfig where
  deviceBlockSize : UInt64
  imageBlockSize : UInt64
  uploadBlockSize : UInt64
  readbackBlockSize : UInt64
  dedicatedThreshold : UInt64

/-- What stays the same over the life of an allocator. -/
structure MemoryAllocator where
  memoryTypes : List MemoryTypeInfo
  nonCoherentAtomSize : UInt64
  config : MemoryAllocatorConfig

def createMemoryAllocator (memoryTypes : List MemoryTypeInfo) (nonCoherentAtomSize : UInt64)
    (config : MemoryAllocatorConfig) : Except Error MemoryAllocator :=
  if config.deviceBlockSize = 0 ∨ config.imageBlockSize = 0 ∨ config.uploadBlockSize = 0 ∨
      config.readbackBlockSize = 0 ∨ config.dedicatedThreshold = 0 then
    .error (.validation "memory allocator block sizes and dedicated threshold must be non-zero")
  else
    .ok { memoryTypes, nonCoherentAtomSize := max nonCoherentAtomSize 1, config }

def alignUp (value alignment : Nat) : Option Nat :=
  if ¬ alignment.isPowerOfTwo then none else Align.alignUp value alignment

structure RangeAllocator where
  size : Nat
  free : List Range
deriving DecidableEq

namespace RangeAllocator

def new (size : Nat) : RangeAllocator := ⟨size, [⟨0, size⟩]⟩

variable (allocator : RangeAllocator)

def normalize : RangeAllocator :=
  { allocator with free := normalizeFreeRanges allocator.free }

/-- The loop over the free ranges. Arithmetic that leaves the 64-bit range ends the whole search. -/
def place (size alignment : Nat) : Nat → List Range → Option (Nat × Range × Range)
  | _, [] => none
  | index, free :: rest => do
    let start ← alignUp free.start alignment
    let stop ← checkedAdd start size
    if free.stop < stop then place size alignment (index + 1) rest else some (index, free, ⟨start, stop⟩)

def allocate (size alignment : Nat) : Option (Range × RangeAllocator) :=
  match place size alignment 0 allocator.free with
  | none => none
  | some (index, free, range) =>
    let front := if free.start < range.start then [⟨free.start, range.start⟩] else []
    let back := if range.stop < free.stop then [⟨range.stop, free.stop⟩] else []
    some (range, normalize { allocator with free := allocator.free.eraseIdx index ++ front ++ back })

/-- `none` where the debug assertion fails. -/
def release (range : Range) : Option RangeAllocator :=
  if range.start < range.stop ∧ range.stop ≤ allocator.size then
    some (normalize { allocator with free := allocator.free ++ [range] })
  else none

/-- `none` where the sum overflows. -/
def available : Option Nat :=
  allocator.free.foldlM (fun total range => checkedAdd total range.size) 0

end RangeAllocator

inductive MemoryClass where
  | buffer | linearImage | optimalImage
deriving DecidableEq

/-- `memory` is the handle of the device memory. Blocks are numbered in the order they come. -/
structure MemoryBlock where
  memory : Nat
  size : Nat
  memoryClass : MemoryClass
  location : MemoryLocation
  memoryTypeIndex : Fin 32
  hostCoherent : Bool
  nonCoherentAtomSize : Nat
  mapped : Bool
  dedicated : Bool
  ranges : RangeAllocator
deriving DecidableEq

structure BufferDescriptor where
  size : UInt64
  usage : UInt32
  memory : MemoryLocation

/-- `alignment` is what the driver asked for when the range was allocated; the source does not keep it. -/
structure Buffer where
  block : Nat
  range : Range
  size : UInt64
  usage : UInt32
  memory : MemoryLocation
  deviceAddress : Option UInt64
  alignment : Nat
deriving DecidableEq

/-- What the driver answers during one creation. A call that fails has an error code. -/
structure Driver where
  createBuffer : Option Int
  size : UInt64
  alignment : UInt64
  memoryTypeBits : UInt32
  prefersDedicatedAllocation : Bool
  requiresDedicatedAllocation : Bool
  allocateMemory : Option Int
  mapMemory : Option Int
  bindBufferMemory : Option Int
  deviceAddress : UInt64

/-- The blocks behind the allocator's lock, and the buffers that are alive. Each buffer counts as one reference to its
block. -/
structure MemoryPool where
  blocks : List MemoryBlock
  buffers : List Buffer
  nextMemory : Nat
deriving DecidableEq

namespace MemoryBlock

variable (block : MemoryBlock)

def compatible (memoryClass : MemoryClass) (location : MemoryLocation) (memoryTypeIndex : Fin 32) :
    Bool :=
  !block.dedicated && block.memoryClass = memoryClass && block.location = location &&
    block.memoryTypeIndex = memoryTypeIndex

def allocate (block : MemoryBlock) (size alignment : Nat) : Option (Range × MemoryBlock) :=
  (block.ranges.allocate size alignment).map fun (range, ranges) => (range, { block with ranges })

def release (block : MemoryBlock) (range : Range) : Option MemoryBlock :=
  (block.ranges.release range).map fun ranges => { block with ranges }

def isEmpty : Option Bool :=
  block.ranges.available.map fun available => available = block.size

def key : MemoryClass × MemoryLocation × Fin 32 :=
  (block.memoryClass, block.location, block.memoryTypeIndex)

end MemoryBlock

namespace BufferUsages

def shaderDeviceAddress : UInt32 := 128

def contains (usage required : UInt32) : Bool := usage &&& required = required

end BufferUsages

namespace BufferDescriptor

def validate (descriptor : BufferDescriptor) : Option String :=
  if descriptor.size = 0 then some "ZeroBufferSize"
  else if descriptor.usage = 0 then some "EmptyBufferUsage"
  else none

end BufferDescriptor

namespace MemoryPool

def empty : MemoryPool := ⟨[], [], 0⟩

variable (pool : MemoryPool)

def put (block : MemoryBlock) : MemoryPool :=
  { pool with blocks := pool.blocks.map fun b => if b.memory = block.memory then block else b }

/-- `Arc::strong_count` of a block of the pool. -/
def strongCount (block : MemoryBlock) : Nat :=
  1 + pool.buffers.countP fun buffer => buffer.block = block.memory

end MemoryPool

namespace MemoryAllocator

abbrev Call (α : Type) := Op MemoryPool Error α

/-- Give a range back to the block that a buffer holds. The assertions are those of a debug build. -/
def release (memory : Nat) (range : Range) : Call Unit := do
  let pool ← get
  let block ← expect (pool.blocks.find? fun block => block.memory = memory)
  let block ← expect (block.release range)
  set (pool.put block)

variable (descriptor : BufferDescriptor)

def finishBuffer (driver : Driver) (memory : Nat) (range : Range) : Call Unit :=
  match driver.bindBufferMemory with
  | some source => do
    release memory range
    fail (.vulkan "vkBindBufferMemory2" source)
  | none => do
    let pool ← get
    let buffer := {
      block := memory, range, size := descriptor.size, usage := descriptor.usage, memory := descriptor.memory
      deviceAddress := none, alignment := driver.alignment.toNat }
    if BufferUsages.contains descriptor.usage BufferUsages.shaderDeviceAddress then
      if driver.deviceAddress = 0 then
        release memory range
        fail (.validation "SHADER_DEVICE_ADDRESS buffer returned a zero address")
      else
        set { pool with buffers := pool.buffers ++ [{ buffer with deviceAddress := some driver.deviceAddress }] }
    else
      set { pool with buffers := pool.buffers ++ [buffer] }

/-- The first compatible block with room, as it is after the allocation. -/
def allocatePooled (location : MemoryLocation) (memoryTypeIndex : Fin 32) (size alignment : Nat) :
    List MemoryBlock → Option (Range × MemoryBlock)
  | [] => none
  | block :: rest =>
    if block.compatible .buffer location memoryTypeIndex then
      (block.allocate size alignment).or (allocatePooled location memoryTypeIndex size alignment rest)
    else
      allocatePooled location memoryTypeIndex size alignment rest

variable (allocator : MemoryAllocator)

def configured : MemoryLocation → UInt64
  | .device => allocator.config.deviceBlockSize
  | .upload => allocator.config.uploadBlockSize
  | .readback => allocator.config.readbackBlockSize

def dedicated (driver : Driver) : Bool :=
  allocator.config.dedicatedThreshold ≤ driver.size || driver.prefersDedicatedAllocation ||
    driver.requiresDedicatedAllocation

def blockSize (descriptor : BufferDescriptor) (driver : Driver) (selection : MemoryPlan) :
    Call Nat := do
  let size := driver.size.toNat
  let alignment := driver.alignment.toNat
  let wanted := if allocator.dedicated driver then size else max (allocator.configured descriptor.memory).toNat size
  let desiredBlockSize ← okOr (alignUp wanted alignment) (.validation "memory block size overflows")
  let memory ← okOr (allocator.memoryTypes.find? fun memory => memory.index = selection.memoryTypeIndex)
    (.validation "selected memory type disappeared")
  if desiredBlockSize ≤ memory.heapSize.toNat then
    pure desiredBlockSize
  else
    okOr (alignUp size alignment) (.validation "minimum Vulkan memory allocation size overflows")

/-- `MemoryBlock::new`. -/
def newBlock (driver : Driver) (selection : MemoryPlan) (size : Nat) (dedicated : Bool) :
    Call MemoryBlock := do
  let pool ← get
  match driver.allocateMemory with
  | some source => fail (.vulkan "vkAllocateMemory(block)" source)
  | none =>
    match if selection.properties.hostVisible then driver.mapMemory else none with
    | some source => fail (.vulkan "vkMapMemory2(block)" source)
    | none =>
      pure {
        memory := pool.nextMemory
        size
        memoryClass := .buffer
        location := descriptor.memory
        memoryTypeIndex := selection.memoryTypeIndex
        hostCoherent := selection.properties.hostCoherent
        nonCoherentAtomSize := selection.flushAtomSize.getD 1
        mapped := selection.properties.hostVisible
        dedicated
        ranges := RangeAllocator.new size }

def pushBlock (block : MemoryBlock) : Call Unit :=
  modify fun pool => { pool with blocks := pool.blocks ++ [block], nextMemory := pool.nextMemory + 1 }

def selection (descriptor : BufferDescriptor) (driver : Driver) :
    Except MemoryPlanError MemoryPlan :=
  MemoryTypeSelector.select allocator.memoryTypes {
    size := driver.size
    alignment := driver.alignment
    memoryTypeBits := driver.memoryTypeBits
    nonCoherentAtomSize := allocator.nonCoherentAtomSize } descriptor.memory

/-- A place in a block that is there, unless the buffer gets a block of its own. -/
def pooled (descriptor : BufferDescriptor) (driver : Driver) (selection : MemoryPlan)
    (blocks : List MemoryBlock) : Option (Range × MemoryBlock) :=
  if allocator.dedicated driver then none
  else allocatePooled descriptor.memory selection.memoryTypeIndex driver.size.toNat driver.alignment.toNat blocks

/-- The rest of `bind_buffer` where no block takes the buffer. -/
def bindNew (descriptor : BufferDescriptor) (driver : Driver) (selection : MemoryPlan) :
    Call Unit := do
  let size ← allocator.blockSize descriptor driver selection
  let block ← newBlock descriptor driver selection size (allocator.dedicated driver)
  let (range, block) ← okOr (block.allocate driver.size.toNat driver.alignment.toNat)
    (.validation "new memory block cannot satisfy allocation")
  pushBlock block
  finishBuffer descriptor driver block.memory range

def bindBuffer (descriptor : BufferDescriptor) (driver : Driver) : Call Unit :=
  match allocator.selection descriptor driver with
  | .error error => fail (.validation error.toString)
  | .ok selection => do
    let pool ← get
    match allocator.pooled descriptor driver selection pool.blocks with
    | some (range, block) =>
      set (pool.put block)
      finishBuffer descriptor driver block.memory range
    | none => allocator.bindNew descriptor driver selection

def createBuffer (allocator : MemoryAllocator) (descriptor : BufferDescriptor) (driver : Driver) : Call Unit :=
  match descriptor.validate with
  | some error => fail (.validation error)
  | none =>
    match driver.createBuffer with
    | some source => fail (.vulkan "vkCreateBuffer" source)
    | none => allocator.bindBuffer descriptor driver

/-- The last owner of the buffer at `index` lets go of it. -/
def dropBuffer (index : Nat) : Call Unit := do
  let pool ← get
  match pool.buffers[index]? with
  | none => pure ()
  | some buffer =>
    release buffer.block buffer.range
    modify fun pool => { pool with buffers := pool.buffers.eraseIdx index }

/-- A block with another owner is not looked into. -/
def inUse (pool : MemoryPool) (block : MemoryBlock) : Call Bool :=
  if pool.strongCount block ≠ 1 then pure true else (!·) <$> expect block.isEmpty

/-- `retain` over the blocks, with the keys of the empty ones kept so far. -/
def retain (pool : MemoryPool) : List (MemoryClass × MemoryLocation × Fin 32) → List MemoryBlock → Call (List MemoryBlock)
  | _, [] => pure []
  | retainedEmpty, block :: rest => do
    let used ← inUse pool block
    if used then
      (block :: ·) <$> retain pool retainedEmpty rest
    else if block.dedicated ∨ block.key ∈ retainedEmpty then
      retain pool retainedEmpty rest
    else
      (block :: ·) <$> retain pool (retainedEmpty ++ [block.key]) rest

def trim : Call Nat := do
  let pool ← get
  let blocks ← retain pool [] pool.blocks
  set { pool with blocks }
  pure (pool.blocks.length - blocks.length)

end MemoryAllocator

/-- A range handed to the driver to be flushed or invalidated. Without a size it goes on to the end of the memory. -/
structure MappedMemoryRange where
  memory : Nat
  offset : Nat
  size : Option Nat
deriving DecidableEq

namespace MemoryBlock

/-- Host access, with the ranges handed to the driver so far as its state. -/
abbrev Access (α : Type) := Op (List MappedMemoryRange) Error α

variable (block : MemoryBlock)

def mappedRange (offset size : Nat) : Access Unit := do
  if ¬ block.mapped then fail (.validation "buffer memory is not host visible")
  else
    let stop ← okOr (checkedAdd offset size) (.validation "mapped range overflows")
    if block.size < stop then fail (.validation "mapped range exceeds memory block") else pure ()

/-- Past the last atom of the block the range goes on to the end of the memory. -/
def synchronizedRange (start stop : Nat) : MappedMemoryRange where
  memory := block.memory
  offset := start
  size := if stop ≤ block.size then some (stop - start) else none

def flushOrInvalidate (offset size : Nat) (operation : String) (answer : Option Int) : Access Unit := do
  let stop ← okOr ((checkedAdd offset size).bind fun stop => alignUp stop block.nonCoherentAtomSize)
    (.validation "mapped synchronization range overflows")
  modify (· ++ [block.synchronizedRange (Align.alignDown offset block.nonCoherentAtomSize) stop])
  match answer with
  | some source => fail (.vulkan operation source)
  | none => pure ()

def flush (offset size : Nat) (answer : Option Int) : Access Unit :=
  if block.hostCoherent then pure () else block.flushOrInvalidate offset size "vkFlushMappedMemoryRanges" answer

def invalidate (offset size : Nat) (answer : Option Int) : Access Unit :=
  if block.hostCoherent then pure () else block.flushOrInvalidate offset size "vkInvalidateMappedMemoryRanges" answer

end MemoryBlock

namespace Buffer

open MemoryBlock

/-- `write_with`, without what the callback writes. -/
def write (buffer : Buffer) (block : MemoryBlock) (offset size : UInt64) (answer : Option Int) : Access Unit := do
  if buffer.memory ≠ .upload then fail (.validation "CPU writes require MemoryLocation::Upload")
  else
    let stop ← okOr (checkedAdd offset.toNat size.toNat) (.validation "buffer write range overflows")
    if buffer.size.toNat < stop then fail (.validation "buffer write exceeds buffer size")
    else if size = 0 then pure ()
    else
      let allocationOffset ← addUsize buffer.range.start offset.toNat
      block.mappedRange allocationOffset size.toNat
      block.flush allocationOffset size.toNat answer

def read (buffer : Buffer) (block : MemoryBlock) (offset size : UInt64) (answer : Option Int) : Access Unit := do
  if buffer.memory ≠ .readback then fail (.validation "CPU reads require MemoryLocation::Readback")
  else
    let stop ← okOr (checkedAdd offset.toNat size.toNat) (.validation "buffer read range overflows")
    if buffer.size.toNat < stop then fail (.validation "buffer read exceeds buffer size")
    else
      let allocationOffset ← addUsize buffer.range.start offset.toNat
      block.invalidate allocationOffset size.toNat answer
      block.mappedRange allocationOffset size.toNat

end Buffer

end TensorDE.Renderer.Memory
