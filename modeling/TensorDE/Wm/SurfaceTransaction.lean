import Mathlib.Logic.Function.Basic
import Mathlib.Data.List.Basic

set_option linter.dupNamespace false

namespace TensorDE.Wm.Compositor

open List

abbrev Surface := Nat
abbrev Barrier := Nat
/-- A cell an `Arc` points to. -/
abbrev Handle := Nat

inductive BlockerState where
  | pending
  | released
  | cancelled
deriving DecidableEq

/-- `commits` lists the commits inserted, by surface and number; the compositor does not keep it. -/
structure TransactionState where
  surfaces : List (Surface × Nat) := []
  blockers : List Barrier := []
  commits : List (Surface × Nat) := []
deriving DecidableEq

abbrev Transaction := TransactionState

inductive TransactionInner where
  | data (state : TransactionState)
  | fused (next : Handle)

structure Cell where
  strong : Nat
  inner : TransactionInner

/-- The cells behind the pending transactions. A cell is freed when its last `Arc` is dropped. -/
structure Heap where
  cells : Handle → Cell
  allocated : Nat

/-- Why a request may not return: `finalize` panics, a lock is waited for forever, or an index is out
of range. -/
inductive Fault where
  | liveAliases
  | deadlock
  | outOfRange
deriving DecidableEq

namespace TransactionState

def insertLoop (surface : Surface) (commit : Nat) : List (Surface × Nat) → List (Surface × Nat)
  | [] => [(surface, commit)]
  | entry :: rest =>
    if entry.1 = surface then (entry.1, max entry.2 commit) :: rest
    else entry :: insertLoop surface commit rest

def insert (surface : Surface) (commit : Nat) (state : TransactionState) : TransactionState :=
  { state with surfaces := insertLoop surface commit state.surfaces }

def isEmpty (state : TransactionState) : Bool := state.surfaces.isEmpty && state.blockers.isEmpty

def Names (state : TransactionState) (surface : Surface) : Prop := ∃ commit, (surface, commit) ∈ state.surfaces

variable (alive : Surface → Bool)

def takeOver (surfaces entries : List (Surface × Nat)) : List (Surface × Nat) :=
  entries.foldl (fun surfaces entry => if alive entry.1 then insertLoop entry.1 entry.2 surfaces else surfaces) surfaces

/-- The second half of `merge_into`: what the target takes over. -/
def absorb (target state : TransactionState) : TransactionState where
  surfaces := takeOver alive target.surfaces state.surfaces
  blockers := target.blockers ++ state.blockers
  commits := target.commits ++ state.commits

section Lemmas

variable {s v : Surface} {i k : Nat} {entries : List (Surface × Nat)}

theorem mem_insertLoop (h : (v, k) ∈ insertLoop s i entries) : (v, k) ∈ entries ∨ (v, k) = (s, i) := by
  induction entries with
  | nil => exact .inr (mem_singleton.mp h)
  | cons entry rest ih => grind [insertLoop]

theorem names_insertLoop_self : ∃ k, (s, k) ∈ insertLoop s i entries := by
  induction entries with
  | nil => exact ⟨i, mem_cons_self⟩
  | cons entry rest ih => grind [insertLoop]

theorem names_insertLoop (h : ∃ k, (v, k) ∈ entries) : ∃ k, (v, k) ∈ insertLoop s i entries := by
  by_cases hv : v = s
  · exact hv ▸ names_insertLoop_self
  · induction entries with
    | nil => simp at h
    | cons entry rest ih =>
      obtain ⟨k, hk⟩ := h
      rw [insertLoop]
      obtain heq | hmem := mem_cons.mp hk
      · grind
      · split
        · exact ⟨k, mem_cons_of_mem _ hmem⟩
        · obtain ⟨j, hj⟩ := ih ⟨k, hmem⟩
          exact ⟨j, mem_cons_of_mem _ hj⟩

variable {alive : Surface → Bool} {surfaces : List (Surface × Nat)}

theorem takeOver_cons (entry : Surface × Nat) (rest : List (Surface × Nat)) :
    takeOver alive surfaces (entry :: rest) =
      takeOver alive (if alive entry.1 then insertLoop entry.1 entry.2 surfaces else surfaces) rest := rfl

theorem mem_takeOver (h : (v, k) ∈ takeOver alive surfaces entries) :
    (v, k) ∈ surfaces ∨ (v, k) ∈ entries ∧ alive v = true := by
  induction entries generalizing surfaces with
  | nil => exact .inl h
  | cons entry rest ih =>
    rw [takeOver_cons] at h
    obtain hinto | ⟨hrest, halive⟩ := ih h
    · split at hinto
      · rename_i hentry
        obtain hold | hnew := mem_insertLoop hinto
        · exact .inl hold
        · obtain rfl : entry = (v, k) := hnew.symm
          exact .inr ⟨mem_cons_self, hentry⟩
      · exact .inl hinto
    · exact .inr ⟨mem_cons_of_mem _ hrest, halive⟩

theorem names_takeOver_left (h : ∃ k, (v, k) ∈ surfaces) : ∃ k, (v, k) ∈ takeOver alive surfaces entries := by
  induction entries generalizing surfaces with
  | nil => exact h
  | cons entry rest ih =>
    rw [takeOver_cons]
    apply ih
    split
    · exact names_insertLoop h
    · exact h

theorem names_takeOver_right (halive : alive v = true) (h : ∃ k, (v, k) ∈ entries) :
    ∃ k, (v, k) ∈ takeOver alive surfaces entries := by
  induction entries generalizing surfaces with
  | nil => simp at h
  | cons entry rest ih =>
    obtain ⟨k, hk⟩ := h
    rw [takeOver_cons]
    obtain rfl | hmem := mem_cons.mp hk
    · -- the entry itself is inserted, and stays
      apply names_takeOver_left
      rw [if_pos halive]
      exact names_insertLoop_self
    · exact ih ⟨k, hmem⟩

end Lemmas

end TransactionState

def TransactionInner.state : TransactionInner → TransactionState
  | .data state => state
  | .fused _ => {}

namespace Heap

variable (p : Handle)

def write (cell : Cell) (heap : Heap) : Heap :=
  { heap with cells := Function.update heap.cells p cell }

/-- `Arc::new`: the cell is `heap.allocated`. -/
def new (inner : TransactionInner) (heap : Heap) : Heap :=
  ⟨Function.update heap.cells heap.allocated ⟨1, inner⟩, heap.allocated + 1⟩

def clone (heap : Heap) : Heap :=
  heap.write p { heap.cells p with strong := (heap.cells p).strong + 1 }

/-- Dropping one `Arc`: the last one drops what the cell holds. -/
def dropLoop : Nat → Handle → Heap → Heap
  | 0, _, heap => heap
  | fuel + 1, p, heap =>
    if (heap.cells p).strong ≤ 1 then
      match (heap.cells p).inner with
      | .data _ => heap.write p { heap.cells p with strong := 0 }
      | .fused next => dropLoop fuel next (heap.write p { heap.cells p with strong := 0 })
    else heap.write p { heap.cells p with strong := (heap.cells p).strong - 1 }

def drop (heap : Heap) : Heap := dropLoop heap.allocated p heap

def resolveLoop (heap : Heap) : Nat → Handle → Handle
  | 0, p => p
  | fuel + 1, p =>
    match (heap.cells p).inner with
    | .data _ => p
    | .fused next => resolveLoop heap fuel next

/-- The cell that `with_state` finds behind a handle. -/
def resolve (heap : Heap) (p : Handle) : Handle := resolveLoop heap heap.allocated p

def state (heap : Heap) (p : Handle) : TransactionState := (heap.cells (heap.resolve p)).inner.state

def put (inner : TransactionInner) (heap : Heap) : Heap :=
  heap.write p { heap.cells p with inner }

def withState (change : TransactionState → TransactionState) (heap : Heap) : Heap :=
  heap.put (heap.resolve p) (.data (change (heap.state p)))

/-- `PendingTransaction::merge_into`. -/
def mergeInto (alive : Surface → Bool) (p target : Handle) (heap : Heap) : Heap :=
  if heap.resolve p = heap.resolve target then heap
  else
    ((heap.put (heap.resolve p) (.fused target)).clone target).withState target fun state =>
      state.absorb alive (heap.state p)

/-- `PendingTransaction::finalize`. -/
def finalizeLoop : Nat → Handle → Heap → Except Fault (Transaction × Heap)
  | 0, _, _ => .error .deadlock
  | fuel + 1, p, heap =>
    if (heap.cells p).strong ≠ 1 then .error .liveAliases
    else
      match (heap.cells p).inner with
      | .data state => .ok (state, heap.write p ⟨0, .data {}⟩)
      | .fused next => finalizeLoop fuel next (heap.write p ⟨0, .data {}⟩)

def finalize (heap : Heap) : Except Fault (Transaction × Heap) :=
  finalizeLoop heap.allocated p heap

section Lemmas

variable {heap : Heap} {p a b : Handle} {t ta tb : TransactionState}

def Sole (heap : Heap) (p : Handle) (t : TransactionState) : Prop :=
  p < heap.allocated ∧ heap.cells p = ⟨1, .data t⟩

theorem resolve_of_data {strong : Nat} (h : heap.cells p = ⟨strong, .data t⟩) : heap.resolve p = p := by
  rw [resolve]
  cases heap.allocated with
  | zero => rfl
  | succ fuel => simp [resolveLoop, h]

theorem Sole.state (h : heap.Sole p t) : heap.state p = t := by
  rw [Heap.state, resolve_of_data h.2, h.2]
  rfl

theorem Sole.withState (h : heap.Sole p t) (change : TransactionState → TransactionState) :
    heap.withState p change = heap.write p ⟨1, .data (change t)⟩ := by
  rw [Heap.withState, resolve_of_data h.2, h.state, put, h.2]

theorem Sole.finalize (h : heap.Sole p t) : heap.finalize p = .ok (t, heap.write p ⟨0, .data {}⟩) := by
  obtain ⟨hlt, hcell⟩ := h
  rw [Heap.finalize]
  cases hfuel : heap.allocated with
  | zero => exact absurd (hfuel ▸ hlt) (Nat.not_lt_zero _)
  | succ fuel => simp [finalizeLoop, hcell]

/-- A merged transaction is dropped: its cell is freed, and the target has one owner again. -/
theorem Sole.fuse (ha : heap.Sole a ta) (hb : heap.Sole b tb) (hab : a ≠ b) (alive : Surface → Bool) :
    (heap.mergeInto alive a b).drop a = (heap.write a ⟨0, .fused b⟩).write b ⟨1, .data (tb.absorb alive ta)⟩ := by
  have hmerge : heap.mergeInto alive a b =
      (heap.write a ⟨1, .fused b⟩).write b ⟨2, .data (tb.absorb alive ta)⟩ := by
    have hcell : ((heap.put a (.fused b)).clone b).cells b = ⟨2, .data tb⟩ := by
      simp [put, clone, write, hab.symm, hb.2]
    rw [mergeInto, resolve_of_data ha.2, resolve_of_data hb.2, if_neg hab, Heap.withState, Heap.state,
      resolve_of_data hcell, hcell, ha.state, put, hcell]
    simp [put, clone, write, ha.2, TransactionInner.state]
  have htwo : ∀ x y n : Nat, x < n → y < n → x ≠ y → n = n - 2 + 2 := by
    intros
    omega
  obtain ⟨fuel, hfuel⟩ : ∃ fuel, heap.allocated = fuel + 2 := ⟨_, htwo a b _ ha.1 hb.1 hab⟩
  rw [hmerge, drop]
  have hallocated : ((heap.write a ⟨1, .fused b⟩).write b ⟨2, .data (tb.absorb alive ta)⟩).allocated = fuel + 2 := hfuel
  rw [hallocated, dropLoop]
  simp only [write, Function.update_of_ne hab, Function.update_self]
  rw [if_pos (Nat.le_refl 1), dropLoop]
  simp only [Function.update_of_ne hab.symm, Function.update_self]
  refine congrArg (Heap.mk · heap.allocated) ?_
  grind

end Lemmas

end Heap

section Queue

variable (alive : Surface → Bool) (signaled : Barrier → Bool)

def barrierState (barrier : Barrier) : BlockerState :=
  if signaled barrier then .released else .pending

def joinState : BlockerState → BlockerState → BlockerState
  | .cancelled, _ => .cancelled
  | _, .cancelled => .cancelled
  | .pending, _ => .pending
  | _, .pending => .pending
  | .released, .released => .released

variable (transaction : Transaction)

/-- `Transaction::state`. -/
def transactionState : BlockerState :=
  if transaction.surfaces.any fun entry => alive entry.1 then
    transaction.blockers.foldl (fun state blocker => joinState state (barrierState signaled blocker)) .released
  else .cancelled

/-- What a pass over the queue does with its transactions. Those of `cancelled` are dropped. -/
structure Sweep where
  ready : List Transaction := []
  kept : List Transaction := []
  cancelled : List Transaction := []

def Sweep.take (sweep : Sweep) : Sweep :=
  { sweep with ready := transaction :: sweep.ready }

def Sweep.keep (sweep : Sweep) : Sweep :=
  { sweep with kept := transaction :: sweep.kept }

def Sweep.drop (sweep : Sweep) : Sweep :=
  { sweep with cancelled := transaction :: sweep.cancelled }

def aliveSurfaces : List Surface :=
  (transaction.surfaces.map (·.1)).filter fun surface => alive surface

/-- The loop of `TransactionQueue::take_ready`, with the surfaces seen so far. -/
def takeReady : List Surface → List Transaction → Sweep
  | _, [] => {}
  | seen, transaction :: rest =>
    match transactionState alive signaled transaction with
    | .cancelled => (takeReady seen rest).drop transaction
    | .pending => (takeReady (aliveSurfaces alive transaction ++ seen) rest).keep transaction
    | .released =>
      if transaction.surfaces.any fun entry => alive entry.1 && seen.contains entry.1 then
        (takeReady (aliveSurfaces alive transaction ++ seen) rest).keep transaction
      else (takeReady seen rest).take transaction

section Lemmas

variable {alive : Surface → Bool} {signaled : Barrier → Bool} {X Z : Transaction} {seen : List Surface}
  {queue : List Transaction}

theorem joinState_eq_released {a b : BlockerState} : joinState a b = .released ↔ a = .released ∧ b = .released := by
  cases a <;> cases b <;> simp [joinState]

theorem barrierState_eq_released {b : Barrier} : barrierState signaled b = .released ↔ signaled b = true := by
  simp [barrierState]

variable {state : BlockerState}

theorem joinState_barrier_ne_cancelled (b : Barrier) (h : state ≠ .cancelled) :
    joinState state (barrierState signaled b) ≠ .cancelled := by
  rw [barrierState]
  cases state with
  | cancelled => exact absurd rfl h
  | pending => split <;> simp [joinState]
  | released => split <;> simp [joinState]

theorem foldl_joinState_released {blockers : List Barrier}
    (h : blockers.foldl (fun state blocker => joinState state (barrierState signaled blocker)) state = .released) :
    state = .released ∧ ∀ b ∈ blockers, signaled b = true := by
  induction blockers generalizing state with
  | nil => exact ⟨h, by simp⟩
  | cons b rest ih => grind [joinState_eq_released, barrierState_eq_released]

theorem released_of_state (h : transactionState alive signaled X = .released) :
    ∀ b ∈ X.blockers, signaled b = true := by
  rw [transactionState] at h
  split at h
  · exact (foldl_joinState_released h).2
  · cases h

theorem foldl_joinState_ne_cancelled (blockers : List Barrier) (h : state ≠ .cancelled) :
    blockers.foldl (fun state blocker => joinState state (barrierState signaled blocker)) state ≠ .cancelled := by
  induction blockers generalizing state with
  | nil => exact h
  | cons b rest ih =>
    apply ih
    exact joinState_barrier_ne_cancelled b h

variable {u : Surface}

theorem dead_of_cancelled (h : transactionState alive signaled X = .cancelled) (hu : X.Names u) : alive u = false := by
  rw [transactionState] at h
  split at h
  · exact absurd h (foldl_joinState_ne_cancelled _ (by decide))
  · obtain ⟨k, hk⟩ := hu
    grind

variable (alive signaled) in
theorem takeReady_cons (seen : List Surface) (X : Transaction) (rest : List Transaction) :
    (transactionState alive signaled X = .cancelled ∧
      takeReady alive signaled seen (X :: rest) = (takeReady alive signaled seen rest).drop X) ∨
    (takeReady alive signaled seen (X :: rest) =
      (takeReady alive signaled (aliveSurfaces alive X ++ seen) rest).keep X) ∨
    (transactionState alive signaled X = .released ∧ (∀ u, X.Names u → alive u = true → u ∉ seen) ∧
      takeReady alive signaled seen (X :: rest) = (takeReady alive signaled seen rest).take X) := by
  rw [takeReady]
  cases hstate : transactionState alive signaled X with
  | cancelled => exact .inl ⟨rfl, rfl⟩
  | pending => exact .inr (.inl rfl)
  | released =>
    dsimp only
    split
    · exact .inr (.inl rfl)
    · rename_i hany
      refine .inr (.inr ⟨rfl, ?_, rfl⟩)
      rintro u ⟨k, hk⟩ halive hseen
      grind

theorem kept_sublist : (takeReady alive signaled seen queue).kept.Sublist queue := by
  induction queue generalizing seen with
  | nil => exact List.Sublist.refl _
  | cons X rest ih =>
    obtain ⟨-, h⟩ | h | ⟨-, -, h⟩ := takeReady_cons alive signaled seen X rest
    · rw [h]
      exact ih.cons X
    · rw [h]
      exact ih.cons_cons X
    · rw [h]
      exact ih.cons X

theorem mem_ready (h : X ∈ (takeReady alive signaled seen queue).ready) :
    X ∈ queue ∧ transactionState alive signaled X = .released ∧ ∀ u, X.Names u → alive u = true → u ∉ seen := by
  induction queue generalizing seen with
  | nil => cases h
  | cons Y rest ih =>
    obtain ⟨-, hY⟩ | hY | ⟨hstate, hseen, hY⟩ := takeReady_cons alive signaled seen Y rest
    · rw [hY] at h
      obtain ⟨hmem, hX⟩ := ih h
      exact ⟨mem_cons_of_mem _ hmem, hX⟩
    · rw [hY] at h
      obtain ⟨hmem, hX, hnot⟩ := ih h
      grind -linarith
    · rw [hY] at h
      obtain rfl | hmem := mem_cons.mp h
      · exact ⟨mem_cons_self, hstate, hseen⟩
      grind -linarith

theorem mem_cancelled (h : X ∈ (takeReady alive signaled seen queue).cancelled) :
    X ∈ queue ∧ transactionState alive signaled X = .cancelled := by
  induction queue generalizing seen with
  | nil => cases h
  | cons Y rest ih =>
    obtain ⟨hstate, hY⟩ | hY | ⟨-, -, hY⟩ := takeReady_cons alive signaled seen Y rest
    · rw [hY] at h
      obtain rfl | hmem := mem_cons.mp h
      · exact ⟨mem_cons_self, hstate⟩
      grind
    · rw [hY] at h
      exact (ih h).imp_left (mem_cons_of_mem _)
    · rw [hY] at h
      exact (ih h).imp_left (mem_cons_of_mem _)

/-- A transaction that is taken stood before every transaction that is kept and shares a living
surface with it. -/
theorem ready_before_kept {R : Transaction → Transaction → Prop} (hR : queue.Pairwise R)
    (hX : X ∈ (takeReady alive signaled seen queue).ready) (hZ : Z ∈ (takeReady alive signaled seen queue).kept) (halive : alive u = true) (hXu : X.Names u) (hZu : Z.Names u) : R X Z := by
  induction queue generalizing seen with
  | nil => cases hX
  | cons Y rest ih =>
    obtain ⟨hfirst, hrest⟩ := pairwise_cons.mp hR
    obtain ⟨-, hY⟩ | hY | ⟨-, -, hY⟩ := takeReady_cons alive signaled seen Y rest
    · rw [hY] at hX hZ
      exact ih hrest hX hZ
    · rw [hY] at hX hZ
      obtain rfl | hZ := mem_cons.mp hZ
      · -- it was seen by the time the other one was looked at
        obtain ⟨k, hk⟩ := hZu
        refine absurd (mem_append_left _ ?_) ((mem_ready hX).2.2 u hXu halive)
        exact mem_filter.mpr ⟨mem_map.mpr ⟨_, hk, rfl⟩, halive⟩
      · exact ih hrest hX hZ
    · rw [hY] at hX hZ
      obtain rfl | hX := mem_cons.mp hX
      · exact hfirst Z (kept_sublist.mem hZ)
      · exact ih hrest hX hZ

end Lemmas

end Queue

end TensorDE.Wm.Compositor
