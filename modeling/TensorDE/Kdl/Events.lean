import TensorDE.Kdl.Reader

namespace TensorDE.Kdl

open Effect Utf8

/-- What the reader of a body tells its visitor, children with the events of
their own bodies. -/
inductive Event where
  | argument (offset : Nat) (typeName : Option Str) (value : Value)
  | property (offset : Nat) (key : Str) (typeName : Option Str) (value : Value)
  | childrenBegin
  | child (offset : Nat) (typeName : Option Str) (name : Str) (events : List Event)
  | childrenEnd

/-- The visitor that writes down what it is told. It takes every child and refuses
nothing. -/
def recorder : NodeVisitor (List Event) where
  onArgumentAt events offset typeName value := .ok (events ++ [.argument offset typeName value])
  onPropertyAt events offset key typeName value := .ok (true, events ++ [.property offset key typeName value])
  takeChildAfterHeaderAt events offset opts typeName name := .ok (.taken [] opts
    (fun nested => .ok (events ++ [.child offset typeName name nested])) id)
  onChildrenBegin events := .ok (events ++ [.childrenBegin])
  onChildrenEnd events := .ok (events ++ [.childrenEnd])

mutual

/-- The callback an event leads to in a build with feature `dom`. -/
def replayEvent {σ : Type} (visitor : NodeVisitor σ) (opts : Opts) (v : σ) : Event → Except ErrorCtx σ
  | .argument offset typeName value => visitor.onArgumentAt v offset typeName value
  | .property offset key typeName value => do
    let (handled, v) ← visitor.onPropertyAt v offset key typeName value
    if !handled && opts.errorOnUnknownKeys then
      .error ((ErrorCtx.new .unknownProperty offset).withMessage "property not recognized by visitor")
    else .ok v
  | .childrenBegin => visitor.onChildrenBegin v
  | .child offset typeName name events => do
    match ← visitor.takeChildAfterHeaderAt v offset opts typeName name with
    | .taken child childOpts finish anchor => do
      let child ← (replay visitor childOpts child events).mapError anchor
      finish child
    | .declined v => do
      let builder ← replay domNodeBuilder opts ⟨typeName, some name, [], []⟩ events
      let child ← builder.finish
      visitor.onChild v child
  | .childrenEnd => visitor.onChildrenEnd v

def replay {σ : Type} (visitor : NodeVisitor σ) (opts : Opts) (v : σ) : List Event → Except ErrorCtx σ
  | [] => .ok v
  | event :: events => do
    let v ← replayEvent visitor opts v event
    replay visitor opts v events

end

section Replay

variable {σ : Type} {visitor : NodeVisitor σ} {opts : Opts} {v v' : σ} {e : ErrorCtx} {event : Event}
  {events more : List Event}

theorem replay_append :
    replay visitor opts v (events ++ more) = replay visitor opts v events >>= fun v => replay visitor opts v more := by
  induction events generalizing v with
  | nil => rfl
  | cons event events ih =>
    rw [List.cons_append, replay, replay]
    cases replayEvent visitor opts v event with
    | error e => rfl
    | ok v => exact ih

theorem replay_snoc (event : Event) (h : replay visitor opts v events = .ok v') :
    replay visitor opts v (events ++ [event]) = replayEvent visitor opts v' event := by
  rw [replay_append, h, except_ok_bind, replay]
  cases replayEvent visitor opts v' event <;> rfl

theorem replay_failed (h : replay visitor opts v events = .error e) :
    replay visitor opts v (events ++ more) = .error e := by
  rw [replay_append, h]
  rfl

end Replay

end TensorDE.Kdl
