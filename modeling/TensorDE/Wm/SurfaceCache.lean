import Mathlib.Data.List.Basic

set_option linter.dupNamespace false

namespace TensorDE.Wm.Compositor

open List

/-- What a protocol stores per surface and commit: its `Default`, its `commit` (what stays
pending, and the update) and its `merge_into`. -/
class Cacheable (T : Type) where
  initial : T
  commit : T → T × T
  mergeInto : T → T → T

/-- An update that waits for its transaction. `commits` numbers the commits of the surface the
update is made of; the compositor itself does not keep it. -/
structure Queued (T : Type) where
  id : Nat
  state : T
  commits : List Nat

/-- The cached state of a surface. A surface has one cache for each kind of state; `MultiCache` does
the same with all of them, and one stands for them here. `merged` numbers the commits merged into
`current` so far; the compositor does not keep it. -/
structure CachedState (T : Type) where
  pending : T
  cache : List (Queued T)
  current : T
  merged : List Nat

variable {T : Type} [Cacheable T]

namespace CachedState

def initial : CachedState T := ⟨Cacheable.initial, [], Cacheable.initial, []⟩

def absorb (cached : CachedState T) (state : Queued T) : CachedState T :=
  { cached with
    current := Cacheable.mergeInto state.state cached.current
    merged := cached.merged ++ state.commits }

def pushBack (cache : List (Queued T)) (update : Queued T) : List (Queued T) :=
  match cache.getLast? with
  | none => cache ++ [update]
  | some last =>
    if last.id = update.id then
      cache.dropLast ++ [{ last with
        state := Cacheable.mergeInto update.state last.state
        commits := last.commits ++ update.commits }]
    else cache ++ [update]

/-- `Cache::commit`, as the commit with number `serial` of its surface. -/
def commit (commit : Option Nat) (serial : Nat) (cached : CachedState T) : CachedState T :=
  match commit with
  | some id =>
    { cached with
      pending := (Cacheable.commit cached.pending).1
      cache := pushBack cached.cache ⟨id, (Cacheable.commit cached.pending).2, [serial]⟩ }
  | none =>
    absorb
      (cached.cache.foldl absorb { cached with pending := (Cacheable.commit cached.pending).1, cache := [] })
      ⟨0, (Cacheable.commit cached.pending).2, [serial]⟩

def applyLoop (commit : Nat) : List (Queued T) → CachedState T → CachedState T
  | [], cached => { cached with cache := [] }
  | state :: rest, cached =>
    if state.id ≤ commit then applyLoop commit rest (cached.absorb state)
    else { cached with cache := state :: rest }

/-- `Cache::apply`. -/
def apply (commit : Nat) (cached : CachedState T) : CachedState T :=
  applyLoop commit cached.cache cached

end CachedState

/-- What is left of a cache without the states: the commits in wait, with the id of their
entry, and the commits merged. -/
structure Shelf where
  waiting : List (Nat × List Nat) := []
  merged : List Nat := []
deriving DecidableEq

namespace Shelf

def push (id serial : Nat) (shelf : Shelf) : Shelf :=
  { shelf with waiting := shelf.waiting ++ [(id, [serial])] }

def drain (serial : Nat) (shelf : Shelf) : Shelf :=
  ⟨[], shelf.merged ++ shelf.waiting.flatMap (·.2) ++ [serial]⟩

def apply (commit : Nat) (shelf : Shelf) : Shelf :=
  ⟨shelf.waiting.dropWhile (·.1 ≤ commit),
    shelf.merged ++ (shelf.waiting.takeWhile (·.1 ≤ commit)).flatMap (·.2)⟩

end Shelf

namespace CachedState

def shelf (cached : CachedState T) : Shelf :=
  ⟨cached.cache.map fun state => (state.id, state.commits), cached.merged⟩

theorem shelf_commit_some {cached : CachedState T} {id serial : Nat} (h : ∀ entry ∈ cached.shelf.waiting, entry.1 < id) :
    (cached.commit (some id) serial).shelf = cached.shelf.push id serial := by
  have hpush : pushBack cached.cache ⟨id, (Cacheable.commit cached.pending).2, [serial]⟩ =
      cached.cache ++ [⟨id, (Cacheable.commit cached.pending).2, [serial]⟩] := by
    rw [pushBack]
    cases hlast : cached.cache.getLast? with
    | none => rfl
    | some last =>
      -- ids are given out once, so that the last entry is never extended
      have hmem : (last.id, last.commits) ∈ cached.shelf.waiting :=
        mem_map.mpr ⟨last, mem_of_getLast? hlast, rfl⟩
      exact if_neg (Nat.ne_of_lt (h _ hmem))
  simp [commit, shelf, Shelf.push, hpush]

theorem shelf_foldl_absorb (states : List (Queued T)) (cached : CachedState T) : (states.foldl absorb cached).shelf =
      { cached.shelf with merged := cached.merged ++ states.flatMap (·.commits) } := by
  induction states generalizing cached with
  | nil => simp [shelf]
  | cons state rest ih =>
    rw [foldl_cons, ih]
    simp [shelf, absorb]

variable (cached : CachedState T)

theorem shelf_absorb (state : Queued T) :
    (cached.absorb state).shelf = { cached.shelf with merged := cached.shelf.merged ++ state.commits } := rfl

theorem shelf_commit_none (serial : Nat) : (cached.commit none serial).shelf = cached.shelf.drain serial := by
  rw [commit, shelf_absorb, shelf_foldl_absorb]
  simp [shelf, Shelf.drain, flatMap_map]

theorem shelf_applyLoop (commit : Nat) (states : List (Queued T)) (cached : CachedState T) :
    (applyLoop commit states cached).shelf =
      Shelf.apply commit ⟨states.map fun state => (state.id, state.commits), cached.merged⟩ := by
  induction states generalizing cached with
  | nil => simp [applyLoop, shelf, Shelf.apply]
  | cons state rest ih =>
    rw [applyLoop]
    split
    · rename_i hle
      rw [ih]
      simp [Shelf.apply, absorb, hle]
    · rename_i hle
      simp [Shelf.apply, shelf, hle]

theorem shelf_apply (commit : Nat) : (cached.apply commit).shelf = cached.shelf.apply commit :=
  shelf_applyLoop commit cached.cache cached

end CachedState

end TensorDE.Wm.Compositor
