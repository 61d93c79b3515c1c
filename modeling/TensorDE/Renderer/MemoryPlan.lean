import Mathlib.Data.List.MinMax
import TensorDE.Lib.Align
import TensorDE.Renderer.Error

set_option linter.dupNamespace false

namespace TensorDE.Renderer.Memory

open Effect

inductive MemoryLocation where
  | device | upload | readback
deriving DecidableEq

/-- The Vulkan property flags the selector looks at. -/
structure MemoryPropertyFlags where
  deviceLocal : Bool
  hostVisible : Bool
  hostCoherent : Bool
  hostCached : Bool
  lazilyAllocated : Bool
deriving DecidableEq

structure MemoryTypeInfo where
  index : Fin 32
  heapIndex : UInt32
  properties : MemoryPropertyFlags
  heapSize : UInt64
deriving DecidableEq

structure AllocationRequirements where
  size : UInt64
  alignment : UInt64
  memoryTypeBits : UInt32
  nonCoherentAtomSize : UInt64

structure MemoryPlan where
  memoryTypeIndex : Fin 32
  heapIndex : UInt32
  properties : MemoryPropertyFlags
  allocationSize : Nat
  alignment : UInt64
  flushAtomSize : Option Nat
  invalidateAtomSize : Option Nat
deriving DecidableEq

inductive MemoryPlanError where
  | zeroSize
  | invalidAlignment (alignment : UInt64)
  | sizeOverflow
  | noCompatibleMemoryType (memoryTypeBits : UInt32) (location : MemoryLocation)
deriving DecidableEq

def MemoryLocation.name : MemoryLocation → String
  | .device => "Device"
  | .upload => "Upload"
  | .readback => "Readback"

def MemoryPlanError.toString : MemoryPlanError → String
  | .zeroSize => "ZeroSize"
  | .invalidAlignment alignment => s!"InvalidAlignment({alignment})"
  | .sizeOverflow => "SizeOverflow"
  | .noCompatibleMemoryType bits location =>
    s!"NoCompatibleMemoryType \x7b memory_type_bits: {bits}, location: {location.name} \x7d"

namespace MemoryTypeSelector

variable (location : MemoryLocation)

def memoryScore (memory : MemoryTypeInfo) : ℕ ×ₗ ℕ ×ₗ ℕ ×ₗ ℕ :=
  let flags := memory.properties
  let coherent := flags.hostCoherent
  let cached := flags.hostCached
  let deviceLocal := flags.deviceLocal
  match location with
  | .device => toLex (flags.hostVisible.toNat, toLex ((!deviceLocal).toNat, toLex (0, memory.index.val)))
  | .upload => toLex ((!coherent).toNat, toLex ((!deviceLocal).toNat, toLex (cached.toNat, memory.index.val)))
  | .readback => toLex ((!cached).toNat, toLex ((!coherent).toNat, toLex ((!deviceLocal).toNat, memory.index.val)))

def required (properties : MemoryPropertyFlags) : Bool :=
  match location with
  | .device => properties.deviceLocal
  | .upload | .readback => properties.hostVisible

variable (types : List MemoryTypeInfo)

def candidates (memoryTypeBits : UInt32) (allocationSize : Nat) (location : MemoryLocation) :
    List MemoryTypeInfo :=
  types.filter fun memory => memoryTypeBits.toNat.testBit memory.index.val && required location memory.properties &&
    !memory.properties.lazilyAllocated && allocationSize ≤ memory.heapSize.toNat

def select (requirements : AllocationRequirements) (location : MemoryLocation) :
    Except MemoryPlanError MemoryPlan :=
  if requirements.size = 0 then .error .zeroSize
  else if ¬ requirements.alignment.toNat.isPowerOfTwo then .error (.invalidAlignment requirements.alignment)
  else match Align.alignUp requirements.size.toNat requirements.alignment.toNat with
    | none => .error .sizeOverflow
    | some allocationSize =>
      match (candidates types requirements.memoryTypeBits allocationSize location).argmin (memoryScore location) with
      | none => .error (.noCompatibleMemoryType requirements.memoryTypeBits location)
      | some selected =>
        let nonCoherent := selected.properties.hostVisible && !selected.properties.hostCoherent
        let atom := if nonCoherent then some (max requirements.nonCoherentAtomSize.toNat 1) else none
        .ok {
          memoryTypeIndex := selected.index
          heapIndex := selected.heapIndex
          properties := selected.properties
          allocationSize
          alignment := requirements.alignment
          flushAtomSize := atom
          invalidateAtomSize := atom }

variable {types : List MemoryTypeInfo} {requirements : AllocationRequirements} {location : MemoryLocation} {plan : MemoryPlan}

/-- What is known of a plan: the request was a sound one, the memory can be mapped where the host needs it, and the
atom is the device's wherever flushes are needed. -/
structure Planned (requirements : AllocationRequirements) (location : MemoryLocation) (plan : MemoryPlan) : Prop where
  positive : 0 < requirements.size.toNat
  alignment : requirements.alignment.toNat.isPowerOfTwo
  visible : location ≠ .device → plan.properties.hostVisible = true
  atom : plan.properties.hostVisible = true → plan.properties.hostCoherent = false →
    plan.flushAtomSize = some (max requirements.nonCoherentAtomSize.toNat 1)

theorem select_ok (h : select types requirements location = .ok plan) : Planned requirements location plan := by
  rw [select] at h
  split at h
  · cases h
  rename_i hsize
  split at h
  · cases h
  rename_i halign
  split at h
  · cases h
  split at h
  · cases h
  rename_i selected hselected
  cases h
  have hcandidate := List.of_mem_filter (List.argmin_mem hselected)
  simp only [Bool.and_eq_true] at hcandidate
  refine ⟨?_, not_not.mp halign, fun hlocation => ?_, fun hvisible hcoherent => ?_⟩
  · have hne : requirements.size.toNat ≠ 0 := fun h0 => hsize (UInt64.toNat_inj.mp h0)
    omega
  · have hrequired := hcandidate.1.1.2
    cases location with
    | device => exact (hlocation rfl).elim
    | upload => exact hrequired
    | readback => exact hrequired
  grind

end MemoryTypeSelector

end TensorDE.Renderer.Memory
