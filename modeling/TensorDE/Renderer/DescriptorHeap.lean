import TensorDE.Lib.Align
import TensorDE.Lib.Ranges

set_option linter.dupNamespace false

namespace TensorDE.Renderer

open Effect Ranges

inductive DescriptorHeapError where
  | invalidAlignment (alignment : Nat)
  | invalidDescriptorLayout
  | invalidTimelineValue
  | zeroSize
  | rangeOverflow
  | wrongHeapKind
  | wrongAllocator
  | reservedRangeConsumesHeap (heapSize minimumReservedRange alignment : Nat)
  | outOfMemory (requested available : Nat)
deriving DecidableEq

/-- A byte range inside a descriptor heap buffer, and the allocator it came from. The type is not
`Clone`, so whoever holds one is the only one to hold it. -/
structure DescriptorAllocation where
  range : Range
  allocatorId : Nat
deriving DecidableEq

/-- The state behind the allocator's lock. -/
structure DescriptorHeapAllocatorState where
  id : Nat
  heapSize : Nat
  alignment : Nat
  reservedRangeOffset : Nat
  reservedRangeSize : Nat
  free : List Range
  retired : List (Nat × Range)
deriving DecidableEq

/-- Extend the last merged range when the next one touches it. -/
def coalesce (merged : List Range) (range : Range) : List Range :=
  match merged.getLast? with
  | none => [range]
  | some previous =>
    if range.start ≤ previous.stop then
      merged.dropLast ++ [{ previous with stop := max previous.stop range.stop }]
    else merged ++ [range]

def normalizeFreeRanges (free : List Range) : List Range :=
  (free.insertionSort fun a b => a.start ≤ b.start).foldl coalesce []

/-- The process-wide counter behind allocator ids. -/
def nextAllocatorId : Op Nat DescriptorHeapError Nat := do
  let id ← get
  let next ← okOr (checkedAdd id 1) .rangeOverflow
  set next
  pure id

namespace DescriptorHeapAllocator

def new (heapSize minimumReservedRange alignment : UInt64) : Op Nat DescriptorHeapError DescriptorHeapAllocatorState :=
  if ¬ alignment.toNat.isPowerOfTwo then fail (.invalidAlignment alignment.toNat)
  else do
    let id ← nextAllocatorId
    let reservedRangeSize ← okOr (Align.alignUp minimumReservedRange.toNat alignment.toNat) .rangeOverflow
    let consumed := .reservedRangeConsumesHeap heapSize.toNat minimumReservedRange.toNat alignment.toNat
    if heapSize.toNat ≤ reservedRangeSize then fail consumed
    else
      let reservedRangeOffset := Align.alignDown (heapSize.toNat - reservedRangeSize) alignment.toNat
      if reservedRangeOffset = 0 then fail consumed
      else pure {
        id
        heapSize := heapSize.toNat
        alignment := alignment.toNat
        reservedRangeOffset
        reservedRangeSize := heapSize.toNat - reservedRangeOffset
        free := [⟨0, reservedRangeOffset⟩]
        retired := [] }

/-- The block a free range offers: `continue` is `none`. -/
def place (size alignment : Nat) (free : Range) : Option Range := do
  let start ← Align.alignUp free.start alignment
  let stop ← checkedAdd start size
  if free.stop < stop then none else some ⟨start, stop⟩

def firstFit (size alignment : Nat) : Nat → List Range → Option (Nat × Range × Range)
  | _, [] => none
  | index, free :: rest =>
    match place size alignment free with
    | some block => some (index, free, block)
    | none => firstFit size alignment (index + 1) rest

def availableBytes (free : List Range) : Op DescriptorHeapAllocatorState DescriptorHeapError Nat :=
  free.foldlM (fun total range => addUsize total range.size) 0

def allocate (size descriptorAlignment : UInt64) :
    Op DescriptorHeapAllocatorState DescriptorHeapError DescriptorAllocation :=
  if size = 0 then fail .zeroSize
  else if ¬ descriptorAlignment.toNat.isPowerOfTwo then fail (.invalidAlignment descriptorAlignment.toNat)
  else do
    let state ← get
    match firstFit size.toNat descriptorAlignment.toNat 0 state.free with
    | some (index, free, block) =>
      let front := if free.start < block.start then [⟨free.start, block.start⟩] else []
      let back := if block.stop < free.stop then [⟨block.stop, free.stop⟩] else []
      set { state with free := normalizeFreeRanges (state.free.eraseIdx index ++ front ++ back) }
      pure ⟨block, state.id⟩
    | none =>
      let available ← availableBytes state.free
      fail (.outOfMemory size.toNat available)

variable (allocation : DescriptorAllocation)

/-- Hand a range back to `give`. The assertion is the one of a debug build. -/
def surrender (give : DescriptorHeapAllocatorState → Range → DescriptorHeapAllocatorState) :
    Op DescriptorHeapAllocatorState DescriptorHeapError Unit := do
  let state ← get
  if allocation.allocatorId ≠ state.id then fail .wrongAllocator
  else if state.reservedRangeOffset < allocation.range.stop then throw .panic
  else set (give state allocation.range)

def retireAtTimeline (after : UInt64) :
    Op DescriptorHeapAllocatorState DescriptorHeapError Unit :=
  if after = 0 then fail .invalidTimelineValue
  else surrender allocation fun state range => { state with retired := state.retired ++ [(after.toNat, range)] }

def release : Op DescriptorHeapAllocatorState DescriptorHeapError Unit :=
  surrender allocation fun state range => { state with free := normalizeFreeRanges (state.free ++ [range]) }

def reclaim (completedTimeline : UInt64) : Op DescriptorHeapAllocatorState DescriptorHeapError Nat := do
  let state ← get
  let reclaimed := state.retired.filter fun entry => entry.1 ≤ completedTimeline.toNat
  let pending := state.retired.filter fun entry => ¬ entry.1 ≤ completedTimeline.toNat
  let free := state.free ++ reclaimed.map Prod.snd
  set { state with retired := pending, free := if reclaimed = [] then free else normalizeFreeRanges free }
  pure reclaimed.length

end DescriptorHeapAllocator

end TensorDE.Renderer
