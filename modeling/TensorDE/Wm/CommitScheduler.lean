import TensorDE.Lib.Heap
import Mathlib.Data.Prod.Lex
import Mathlib.Tactic

set_option linter.dupNamespace false

namespace TensorDE.Wm.SurfaceTiming

open TensorDE.Heaps

structure Deadline where
  seconds : Nat
  nanoseconds : Nat
deriving DecidableEq, Repr

variable (d : Deadline)

def Deadline.fields : Nat ×ₗ Nat := toLex (d.seconds, d.nanoseconds)

theorem Deadline.fields_injective : Function.Injective Deadline.fields := by
  intro d e h
  have hpair : (d.seconds, d.nanoseconds) = (e.seconds, e.nanoseconds) := h
  cases d
  cases e
  simpa using hpair

instance : LinearOrder Deadline := LinearOrder.lift' Deadline.fields Deadline.fields_injective

def Deadline.fromWire (tvSecHi tvSecLo tvNsec : Nat) : Option Deadline :=
  if tvNsec < 1000000000 then some ⟨tvSecHi * 2 ^ 32 + tvSecLo, tvNsec⟩ else none

/-- `it_value` of a timer; zero disarms it. -/
structure Timespec where
  tvSec : Int
  tvNsec : Int
deriving DecidableEq, Repr

def Timespec.zero : Timespec := ⟨0, 0⟩

/-- `i64::try_from` fails on seconds from `2 ^ 63` on. -/
def Deadline.timespec : Option Timespec :=
  if d.seconds < 2 ^ 63 then some ⟨d.seconds, d.nanoseconds⟩ else none

structure SurfaceBarrier (S B : Type) where
  surfaceId : S
  barrier : B
deriving DecidableEq

structure TimedBarrier (S B : Type) where
  deadline : Deadline
  sequence : Nat
  barrier : SurfaceBarrier S B

variable {S B : Type}

def TimedBarrier.order (e : TimedBarrier S B) : Deadline ×ₗ Nat := toLex (e.deadline, e.sequence)

structure Registration (S B : Type) where
  blocker : B
  signalled : Bool
  released : List (SurfaceBarrier S B)

structure TimerCompletion (S B : Type) where
  released : List (SurfaceBarrier S B)
  rearm : Bool
  error : Option String

variable (released : List (SurfaceBarrier S B))

def TimerCompletion.healthy : TimerCompletion S B := ⟨released, true, none⟩

def TimerCompletion.failed : TimerCompletion S B := ⟨released, false, none⟩

def TimerCompletion.withError (error : String) : TimerCompletion S B :=
  ⟨released, false, some error⟩

structure CommitScheduler (S B : Type) where
  /-- The `it_value` that the timerfd was last set to and has not run down. -/
  timer : Timespec
  deadlines : Heap (TimedBarrier.order (S := S) (B := B))
  sequence : Nat
  armed : Option Deadline
  failed : Bool

/-- What a call meets outside: the clock, the answers of the timerfd, and the order in which the
binary heap hands out its entries when they are not popped. -/
structure Outside (S B : Type) where
  now : Deadline
  readError : Option String
  settimeError : Option String
  disarmError : Option String
  arrange : List (TimedBarrier S B) → List (TimedBarrier S B)

namespace CommitScheduler

def new : CommitScheduler S B := ⟨Timespec.zero, Heap.empty, 0, none, false⟩

variable (c : CommitScheduler S B)

def earliest : Option Deadline := c.deadlines.peek.map TimedBarrier.deadline

def armEarliest (o : Outside S B) : Except String (CommitScheduler S B) :=
  if c.armed = c.earliest then .ok c
  else
    match o.settimeError with
    | some error => .error error
    | none => .ok { c with
        timer := (c.earliest.bind Deadline.timespec).getD Timespec.zero
        armed := c.earliest }

def failOpen (o : Outside S B) : List (SurfaceBarrier S B) × CommitScheduler S B :=
  ((o.arrange c.deadlines.entries).map TimedBarrier.barrier,
    { c with
      failed := true
      armed := none
      timer := if o.disarmError.isNone then Timespec.zero else c.timer
      deadlines := Heap.empty })

/-- Where the timer cannot be armed nothing may wait for it: the error, with all that is released. -/
def armOrOpen (o : Outside S B) :
    Option String × List (SurfaceBarrier S B) × CommitScheduler S B :=
  match c.armEarliest o with
  | .ok armed => (none, [], armed)
  | .error error => (some error, c.failOpen o)

def register (o : Outside S B) (deadline : Deadline) (barrier : SurfaceBarrier S B) :
    Registration S B × CommitScheduler S B :=
  if c.failed ∨ deadline ≤ o.now then (⟨barrier.barrier, true, [barrier]⟩, c)
  else
    let pushed := { c with
      sequence := (c.sequence + 1) % 2 ^ 64
      deadlines := c.deadlines.push ⟨deadline, c.sequence, barrier⟩ }
    (⟨barrier.barrier, false, (pushed.armOrOpen o).2.1⟩, (pushed.armOrOpen o).2.2)

/-- A timer that could be read has run down. -/
def complete (o : Outside S B) : TimerCompletion S B × CommitScheduler S B :=
  if c.failed then (.failed [], c)
  else
    match o.readError with
    | some error => (.withError (c.failOpen o).1 error, (c.failOpen o).2)
    | none =>
      let due := c.deadlines.popWhile fun entry => entry.deadline ≤ o.now
      let released := due.1.map TimedBarrier.barrier
      let rest := { c with timer := Timespec.zero, armed := none, deadlines := due.2 }
      match (rest.armOrOpen o).1 with
      | none => (.healthy released, (rest.armOrOpen o).2.2)
      | some error => (.withError (released ++ (rest.armOrOpen o).2.1) error, (rest.armOrOpen o).2.2)

def removeSurface [DecidableEq S] (c : CommitScheduler S B) (o : Outside S B) (surface : S) :
    List (SurfaceBarrier S B) × CommitScheduler S B :=
  let released := ((o.arrange c.deadlines.entries).filter fun entry => entry.barrier.surfaceId = surface).map
    TimedBarrier.barrier
  let rest := { c with deadlines := c.deadlines.retain fun entry => entry.barrier.surfaceId ≠ surface }
  if c.failed then (released, rest) else (released ++ (rest.armOrOpen o).2.1, (rest.armOrOpen o).2.2)

end CommitScheduler

end TensorDE.Wm.SurfaceTiming
