import TensorDE.Wm.SurfaceCache

set_option linter.dupNamespace false

namespace TensorDE.Wm.Compositor

/-- What was attached to a surface. `attachment` numbers the attachments of the surface; the compositor does not keep it. -/
inductive BufferAssignment (B : Type) where
  | removed
  | newBuffer (buffer : B) (attachment : Nat)
deriving DecidableEq, Repr

inductive Damage (R : Type) where
  | surface (rect : R)
  | buffer (rect : R)
deriving DecidableEq, Repr

inductive RectangleKind where
  | add | subtract
deriving DecidableEq, Repr

structure RegionAttributes (R : Type) where
  rects : List (RectangleKind × R)
deriving DecidableEq, Repr

inductive Transform where
  | normal | rotated90 | rotated180 | rotated270 | flipped | flipped90 | flipped180 | flipped270
deriving DecidableEq, Repr

/-- `B` names the buffers and `R` the rectangles. `released` has the buffers that merging has released, with their
attachments; the compositor sends the event then and keeps nothing. -/
structure SurfaceAttributes (B R : Type) where
  buffer : Option (BufferAssignment B)
  bufferDelta : Option (Int × Int)
  bufferScale : Int
  bufferTransform : Transform
  opaqueRegion : Option (RegionAttributes R)
  inputRegion : Option (RegionAttributes R)
  damage : List (Damage R)
  frameCallbacks : List Nat
  clientScale : BitVec 64
  released : List (B × Nat)
deriving DecidableEq, Repr

namespace BufferAssignment

variable {B : Type}

/-- The buffer that goes when another assignment takes the place of this one. -/
def supersededBy [DecidableEq B] : Option (BufferAssignment B) → Option (BufferAssignment B) → List (B × Nat)
  | some (.newBuffer previous attachment), some (.newBuffer buffer _) =>
    if buffer = previous then [] else [(previous, attachment)]
  | some (.newBuffer previous attachment), some .removed => [(previous, attachment)]
  | _, _ => []

end BufferAssignment

namespace SurfaceAttributes

variable {B R : Type}

def initial : SurfaceAttributes B R := ⟨none, none, 1, .normal, none, none, [], [], 0x3FF0000000000000#64, []⟩

/-- What stays pending, and the update. -/
def commit (attributes : SurfaceAttributes B R) : SurfaceAttributes B R × SurfaceAttributes B R :=
  ({ attributes with buffer := none, bufferDelta := none, damage := [], frameCallbacks := [] }, attributes)

def mergeInto [DecidableEq B] (attributes current : SurfaceAttributes B R) : SurfaceAttributes B R where
  buffer := if attributes.buffer.isSome then attributes.buffer else current.buffer
  bufferDelta := attributes.bufferDelta
  bufferScale := attributes.bufferScale
  bufferTransform := attributes.bufferTransform
  opaqueRegion := attributes.opaqueRegion
  inputRegion := attributes.inputRegion
  damage := current.damage ++ attributes.damage
  frameCallbacks := current.frameCallbacks ++ attributes.frameCallbacks
  clientScale := attributes.clientScale
  released := current.released ++ attributes.released ++ BufferAssignment.supersededBy current.buffer attributes.buffer

instance [DecidableEq B] : Cacheable (SurfaceAttributes B R) := ⟨initial, commit, mergeInto⟩

end SurfaceAttributes

namespace CachedState

variable {T : Type} [Cacheable T]

def mergeAll (states : List T) (current : T) : T := states.foldl (fun current state => Cacheable.mergeInto state current) current

@[simp] theorem mergeAll_nil (current : T) : mergeAll [] current = current := rfl

@[simp] theorem mergeAll_cons (state : T) (states : List T) (current : T) :
    mergeAll (state :: states) current = mergeAll states (Cacheable.mergeInto state current) := rfl

theorem mergeAll_append (states rest : List T) (current : T) :
    mergeAll (states ++ rest) current = mergeAll rest (mergeAll states current) := List.foldl_append

theorem foldl_absorb (queue : List (Queued T)) (cached : CachedState T) :
    (queue.foldl absorb cached).current = mergeAll (queue.map Queued.state) cached.current
      ∧ (queue.foldl absorb cached).cache = cached.cache ∧ (queue.foldl absorb cached).pending = cached.pending := by
  induction queue generalizing cached with
  | nil => exact ⟨rfl, rfl, rfl⟩
  | cons state rest ih =>
    obtain ⟨hcurrent, hcache, hpending⟩ := ih (cached.absorb state)
    exact ⟨hcurrent, hcache, hpending⟩

theorem commit_none (cached : CachedState T) (serial : Nat) :
    (cached.commit none serial).pending = (Cacheable.commit cached.pending).1 ∧ (cached.commit none serial).cache = []
      ∧ (cached.commit none serial).current
        = mergeAll (cached.cache.map Queued.state ++ [(Cacheable.commit cached.pending).2]) cached.current := by
  obtain ⟨hcurrent, hcache, hpending⟩ :=
    foldl_absorb cached.cache { cached with pending := (Cacheable.commit cached.pending).1, cache := [] }
  refine ⟨hpending, hcache, ?_⟩
  rw [mergeAll_append]
  exact congrArg (Cacheable.mergeInto (Cacheable.commit cached.pending).2) hcurrent

theorem commit_some {cached : CachedState T} {id : Nat} (serial : Nat) (h : ∀ state ∈ cached.cache, state.id < id) :
    cached.commit (some id) serial = { cached with
      pending := (Cacheable.commit cached.pending).1
      cache := cached.cache ++ [⟨id, (Cacheable.commit cached.pending).2, [serial]⟩] } := by
  grind [commit, pushBack]

theorem applyLoop_eq (commit : Nat) (queue : List (Queued T)) (cached : CachedState T) :
    (applyLoop commit queue cached).cache = queue.dropWhile (fun state => state.id ≤ commit)
      ∧ (applyLoop commit queue cached).pending = cached.pending ∧ (applyLoop commit queue cached).current
        = mergeAll ((queue.takeWhile fun state => state.id ≤ commit).map Queued.state) cached.current := by
  induction queue generalizing cached with
  | nil => exact ⟨rfl, rfl, rfl⟩
  | cons state queue ih =>
    rw [applyLoop]
    split_ifs with hle
    · rw [List.dropWhile_cons, List.takeWhile_cons, if_pos (decide_eq_true hle), if_pos (decide_eq_true hle)]
      exact ih (cached.absorb state)
    · simp_all

end CachedState

end TensorDE.Wm.Compositor
