import Mathlib.Data.List.Sort
import TensorDE.Lib.Effect
import TensorDE.Lib.Maps
import TensorDE.Lib.Forest

set_option linter.dupNamespace false

namespace TensorDE.Wm

open Effect Maps

abbrev ViewId := UInt64
abbrev WorkspaceId := UInt32

structure Size where
  width : UInt32
  height : UInt32
deriving DecidableEq

structure Rect where
  x : Int32
  y : Int32
  width : UInt32
  height : UInt32
deriving DecidableEq

structure LayoutPlacement where
  geometry : Rect
  visible : Option Rect

structure LayoutSnapshot where
  viewport : Rect
  placements : List LayoutPlacement
  contentBounds : Rect
  horizontalOffset : Int32

inductive ViewPlacement where
  | tiled
  | floating (geometry : Rect)
  | attached (owner : ViewId) (preferredSize : Size)
deriving DecidableEq

def ViewPlacement.owner : ViewPlacement → Option ViewId
  | .tiled | .floating _ => none
  | .attached owner _ => some owner

/-- The components the lifecycle operations read or write on one view entity.
Optional components are options, the marker component is a flag. -/
structure ViewState where
  workspace : WorkspaceId
  placement : ViewPlacement
  stackingOrder : Nat
  focused : Bool
  minimizedFrom : Option WorkspaceId
  viewGeometry : Option Rect

structure CompositorWorld where
  views : Map ViewId ViewState
  layoutSnapshots : Map WorkspaceId LayoutSnapshot
  nextStackingOrder : Nat

inductive ViewLifecycleError where
  | duplicateViewId (view : ViewId)
  | missingViewId (view : ViewId)
  | selfAttachment (view : ViewId)
  | crossWorkspaceAttachment (view owner : ViewId)
  | attachmentCycle (view owner : ViewId)
  | attachedViewCannotMove (view : ViewId)
  | attachedChild (owner child : ViewId)
  | brokenAttachment (view : ViewId)
deriving DecidableEq

abbrev Lifecycle (α : Type) := Op CompositorWorld ViewLifecycleError α

namespace CompositorWorld

def new : CompositorWorld := ⟨.empty, .empty, 1⟩

variable (w : CompositorWorld)

def viewPlacement (view : ViewId) : Option ViewPlacement :=
  (w.views.find view).map (·.placement)

def ownerOf (view : ViewId) : Option ViewId :=
  (w.viewPlacement view).bind (·.owner)

def viewWorkspace (view : ViewId) : Option WorkspaceId :=
  (w.views.find view).map (·.workspace)

def isFocused (view : ViewId) : Bool :=
  ((w.views.find view).map (·.focused)).getD false

def stackingOrder (w : CompositorWorld) (view : ViewId) : Option Nat :=
  (w.views.find view).map (·.stackingOrder)

/-- Direct attached children in stable ID order. -/
def attachedChildren (owner : ViewId) : List ViewId :=
  (w.views.keys.filter (fun view => w.ownerOf view = some owner)).mergeSort

def focusedEntities (workspace : WorkspaceId) : List ViewId :=
  w.views.keys.filter (fun view => w.viewWorkspace view = some workspace && w.isFocused view)

def tiledAncestorLoop (w : CompositorWorld) : Nat → ViewId → Option ViewId
  | 0, _ => none
  | rounds + 1, current =>
    match w.viewPlacement current with
    | none => none
    | some placement =>
      match placement.owner with
      | none => some current
      | some owner => w.tiledAncestorLoop rounds owner

def tiledAncestor (view : ViewId) : Option ViewId :=
  w.tiledAncestorLoop w.views.keys.length view

def wouldCycleLoop (w : CompositorWorld) (view : ViewId) : Nat → ViewId → Bool
  | 0, _ => true
  | rounds + 1, current =>
    if current = view then true
    else
      match w.ownerOf current with
      | none => false
      | some next => w.wouldCycleLoop view rounds next

def attachmentWouldCycle (view owner : ViewId) : Bool :=
  w.wouldCycleLoop view w.views.keys.length owner

end CompositorWorld

open CompositorWorld

variable (view : ViewId)

def entityFor : Lifecycle ViewState := do
  let w ← get
  okOr (w.views.find view) (.missingViewId view)

/-- The collecting loop runs once per family member; a family larger than the
view index can only come from a cycle, on which the loop never ends. -/
def viewFamily (root : ViewId) : Lifecycle (List ViewId) := do
  let w ← get
  match Forest.grow w.attachedChildren (w.views.keys.length + 1) [root] 0 with
  | some family => pure family
  | none => throw .diverge

def allocateStackingOrder : Lifecycle Nat := do
  let w ← get
  if w.nextStackingOrder + 1 < 2 ^ 64 then do
    set { w with nextStackingOrder := w.nextStackingOrder + 1 }
    pure w.nextStackingOrder
  else throw .panic

def updateView (f : ViewState → ViewState) : Lifecycle Unit :=
  modify fun w => { w with views := w.views.modify view f }

variable (workspace : WorkspaceId)

def dropSnapshot : Lifecycle Unit :=
  modify fun w => { w with layoutSnapshots := w.layoutSnapshots.erase workspace }

def unfocus (s : ViewState) : ViewState := { s with focused := false }

def removeFocused : List ViewId → Lifecycle Unit
  | [] => pure ()
  | view :: rest => do
    updateView view unfocus
    removeFocused rest

def spawnView (workspace : WorkspaceId) : Lifecycle Unit := do
  let w ← get
  if (w.views.find view).isSome then fail (.duplicateViewId view)
  else do
    let order ← allocateStackingOrder
    modify fun w => { w with views := w.views.insert view ⟨workspace, .tiled, order, false, none, none⟩ }
    dropSnapshot workspace

def removeView : Lifecycle Unit := do
  let w ← get
  match w.attachedChildren view with
  | child :: _ => fail (.attachedChild view child)
  | [] => do
    let s ← okOr (w.views.find view) (.missingViewId view)
    modify fun w => { w with views := w.views.erase view }
    dropSnapshot s.workspace

def relocate (s : ViewState) : ViewState :=
  { s with workspace := workspace, viewGeometry := none, minimizedFrom := none }

def relocateMembers (workspace : WorkspaceId) : List ViewId → Lifecycle Unit
  | [] => pure ()
  | member :: rest => do
    let w ← get
    let _ ← expect (w.views.find member)
    updateView member (relocate workspace)
    relocateMembers workspace rest

def moveView (workspace : WorkspaceId) : Lifecycle Unit := do
  let s ← entityFor view
  if s.placement.owner.isSome then fail (.attachedViewCannotMove view)
  else if s.workspace = workspace then pure ()
  else do
    let family ← viewFamily view
    let w ← get
    removeFocused (if family.any w.isFocused then w.focusedEntities workspace else [])
    relocateMembers workspace family
    dropSnapshot s.workspace
    dropSnapshot workspace

def checkPlacement (workspace : WorkspaceId) (placement : ViewPlacement) :
    Lifecycle Unit :=
  match placement.owner with
  | none => pure ()
  | some owner =>
    if owner = view then fail (.selfAttachment view)
    else do
      let o ← entityFor owner
      if o.workspace ≠ workspace then fail (.crossWorkspaceAttachment view owner)
      else do
        let w ← get
        if w.attachmentWouldCycle view owner then fail (.attachmentCycle view owner)
        else pure ()

def setViewPlacement (placement : ViewPlacement) : Lifecycle Bool := do
  let s ← entityFor view
  if s.placement = placement then pure false
  else do
    checkPlacement view s.workspace placement
    updateView view fun s => { s with placement := placement }
    dropSnapshot s.workspace
    pure true

def restack : List ViewId → Lifecycle Unit
  | [] => pure ()
  | view :: rest => do
    let _ ← entityFor view
    let order ← allocateStackingOrder
    updateView view fun s => { s with stackingOrder := order }
    restack rest

def raiseViewFamily (focused : ViewId) : Lifecycle Unit := do
  let w ← get
  let root ← okOr (w.tiledAncestor focused) (.brokenAttachment focused)
  let family ← viewFamily root
  if focused ≠ root then do
    let subtree ← viewFamily focused
    restack (family.filter (fun view => !subtree.contains view) ++ subtree)
  else restack family

def focusView : Lifecycle Unit := do
  let s ← entityFor view
  if s.focused then pure ()
  else do
    let w ← get
    removeFocused (w.focusedEntities s.workspace)
    updateView view fun s => { s with focused := true }
    raiseViewFamily view
    dropSnapshot s.workspace

def minimizeView (hidden : WorkspaceId) : Lifecycle Bool := do
  let s ← entityFor view
  if s.minimizedFrom.isSome then pure false
  else if s.workspace = hidden then pure false
  else do
    moveView view hidden
    let _ ← entityFor view
    updateView view fun v => { v with minimizedFrom := some s.workspace }
    pure true

def restoreMinimizedView : Lifecycle (Option WorkspaceId) := do
  let s ← entityFor view
  match s.minimizedFrom with
  | none => pure none
  | some origin => do
    moveView view origin
    pure (some origin)

inductive Command where
  | spawnView (view : ViewId) (workspace : WorkspaceId)
  | removeView (view : ViewId)
  | moveView (view : ViewId) (workspace : WorkspaceId)
  | setViewPlacement (view : ViewId) (placement : ViewPlacement)
  | focusView (view : ViewId)
  | minimizeView (view : ViewId) (hidden : WorkspaceId)
  | restoreMinimizedView (view : ViewId)

inductive Response where
  | done
  | changed (yes : Bool)
  | origin (workspace : Option WorkspaceId)

def exec : Command → Lifecycle Response
  | .spawnView view workspace => (fun _ => .done) <$> spawnView view workspace
  | .removeView view => (fun _ => .done) <$> removeView view
  | .moveView view workspace => (fun _ => .done) <$> moveView view workspace
  | .setViewPlacement view placement => .changed <$> setViewPlacement view placement
  | .focusView view => (fun _ => .done) <$> focusView view
  | .minimizeView view hidden => .changed <$> minimizeView view hidden
  | .restoreMinimizedView view => .origin <$> restoreMinimizedView view

end TensorDE.Wm
