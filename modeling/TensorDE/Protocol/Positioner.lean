import TensorDE.Lib.Saturating
import TensorDE.Lib.Span
import TensorDE.Protocol.Registry

set_option linter.dupNamespace false

/-! Where a popup is placed, and how its placement is adjusted to a target rectangle. -/

namespace TensorDE.Protocol

variable (r : Rect)

def Rect.horizontal : Span := ⟨r.x, r.width⟩

def Rect.vertical : Span := ⟨r.y, r.height⟩

namespace XdgShell

open Saturating

structure Point where
  x : Int
  y : Int
deriving DecidableEq, Repr

/-- The values that anchors and gravities have. -/
inductive Direction where
  | none | top | bottom | left | right | topLeft | bottomLeft | topRight | bottomRight
deriving DecidableEq, Repr

abbrev Anchor := Direction

abbrev Gravity := Direction

namespace Direction

def hasTop : Direction → Bool
  | .top | .topLeft | .topRight => true
  | _ => false

def hasBottom : Direction → Bool
  | .bottom | .bottomLeft | .bottomRight => true
  | _ => false

def hasLeft : Direction → Bool
  | .left | .topLeft | .bottomLeft => true
  | _ => false

def hasRight : Direction → Bool
  | .right | .topRight | .bottomRight => true
  | _ => false

def invertX : Direction → Direction
  | .left => .right
  | .right => .left
  | .topLeft => .topRight
  | .topRight => .topLeft
  | .bottomLeft => .bottomRight
  | .bottomRight => .bottomLeft
  | other => other

def invertY : Direction → Direction
  | .top => .bottom
  | .bottom => .top
  | .topLeft => .bottomLeft
  | .topRight => .bottomRight
  | .bottomLeft => .topLeft
  | .bottomRight => .topRight
  | other => other

variable (d : Direction)

@[simp] theorem hasTop_invertX : d.invertX.hasTop = d.hasTop := by cases d <;> rfl

@[simp] theorem hasBottom_invertX : d.invertX.hasBottom = d.hasBottom := by cases d <;> rfl

@[simp] theorem hasLeft_invertX : d.invertX.hasLeft = d.hasRight := by cases d <;> rfl

@[simp] theorem hasRight_invertX : d.invertX.hasRight = d.hasLeft := by cases d <;> rfl

@[simp] theorem hasTop_invertY : d.invertY.hasTop = d.hasBottom := by cases d <;> rfl

@[simp] theorem hasBottom_invertY : d.invertY.hasBottom = d.hasTop := by cases d <;> rfl

@[simp] theorem hasLeft_invertY : d.invertY.hasLeft = d.hasLeft := by cases d <;> rfl

@[simp] theorem hasRight_invertY : d.invertY.hasRight = d.hasRight := by cases d <;> rfl

end Direction

structure ConstraintAdjustment where
  slideX : Bool
  slideY : Bool
  flipX : Bool
  flipY : Bool
  resizeX : Bool
  resizeY : Bool
deriving DecidableEq, Repr

structure PositionerState where
  size : Size
  anchorRect : Rect
  anchor : Anchor
  gravity : Gravity
  adjustment : ConstraintAdjustment
  offset : Point
  reactive : Bool
  parentSize : Option Size
  parentConfigure : Option Nat
deriving DecidableEq, Repr

def add (left right : Int) : Int := addI32 left right

def xdgSub (value amount : Int) : Int := subI32 value amount

def axis (value : Nat) : Int := min (value : Int) i32Max

def addI64 (value delta : Int) : Int := clampI32 (value + delta)

/-- How far a rectangle reaches over the edges of the target. -/
structure Offsets where
  left : Int
  right : Int
  top : Int
  bottom : Int
deriving DecidableEq, Repr

namespace Offsets

def new (target popup : Rect) : Offsets where
  left := target.x - popup.x
  right := popup.x + popup.width - (target.x + target.width)
  top := target.y - popup.y
  bottom := popup.y + popup.height - (target.y + target.height)

variable (o : Offsets)

def horizontal : Bool := 0 < o.left || 0 < o.right

def vertical : Bool := 0 < o.top || 0 < o.bottom

end Offsets

namespace PositionerState

variable (p : PositionerState)

def complete : Bool :=
  0 < p.size.width && 0 < p.size.height && 0 < p.anchorRect.width && 0 < p.anchorRect.height

def anchorX : Int :=
  if p.anchor.hasLeft then p.anchorRect.x
  else if p.anchor.hasRight then add p.anchorRect.x (axis p.anchorRect.width)
  else add p.anchorRect.x (axis (p.anchorRect.width / 2))

def anchorY : Int :=
  if p.anchor.hasTop then p.anchorRect.y
  else if p.anchor.hasBottom then add p.anchorRect.y (axis p.anchorRect.height)
  else add p.anchorRect.y (axis (p.anchorRect.height / 2))

def geometry : Rect where
  x :=
    if p.gravity.hasLeft then xdgSub (add p.anchorX p.offset.x) (axis p.size.width)
    else if !p.gravity.hasRight then xdgSub (add p.anchorX p.offset.x) (axis (p.size.width / 2))
    else add p.anchorX p.offset.x
  y :=
    if p.gravity.hasTop then xdgSub (add p.anchorY p.offset.y) (axis p.size.height)
    else if !p.gravity.hasBottom then xdgSub (add p.anchorY p.offset.y) (axis (p.size.height / 2))
    else add p.anchorY p.offset.y
  width := p.size.width
  height := p.size.height

def flippedX : PositionerState :=
  { p with
    anchor := p.anchor.invertX
    gravity := p.gravity.invertX }

def flippedY : PositionerState :=
  { p with
    anchor := p.anchor.invertY
    gravity := p.gravity.invertY }

end PositionerState

/-- What `constrained_geometry` works on. -/
structure Placing where
  positioner : PositionerState
  geometry : Rect
  offsets : Offsets

namespace Placing

def start (p : PositionerState) (target : Rect) : Placing := ⟨p, p.geometry, Offsets.new target p.geometry⟩

def flipX (target : Rect) (s : Placing) : Placing :=
  if s.offsets.horizontal && s.positioner.adjustment.flipX then
    if !(Offsets.new target s.positioner.flippedX.geometry).horizontal then
      ⟨s.positioner.flippedX, s.positioner.flippedX.geometry, { s.offsets with
        left := 0
        right := 0 }⟩
    else s
  else s

def flipY (target : Rect) (s : Placing) : Placing :=
  if s.offsets.vertical && s.positioner.adjustment.flipY then
    if !(Offsets.new target s.positioner.flippedY.geometry).vertical then
      { s with
        geometry := s.positioner.flippedY.geometry
        offsets := { s.offsets with
          top := 0
          bottom := 0 } }
    else s
  else s

def slid (position before after : Int) : Int :=
  if 0 < before then addI64 position before
  else if 0 < after then addI64 position (-min after (-before))
  else position

def slideX (target : Rect) (s : Placing) : Placing :=
  if s.offsets.horizontal && s.positioner.adjustment.slideX then
    let geometry := { s.geometry with x := slid s.geometry.x s.offsets.left s.offsets.right }
    { s with
      geometry := geometry
      offsets := { s.offsets with
        left := (Offsets.new target geometry).left
        right := (Offsets.new target geometry).right } }
  else s

def slideY (target : Rect) (s : Placing) : Placing :=
  if s.offsets.vertical && s.positioner.adjustment.slideY then
    let geometry := { s.geometry with y := slid s.geometry.y s.offsets.top s.offsets.bottom }
    { s with
      geometry := geometry
      offsets := { s.offsets with
        top := (Offsets.new target geometry).top
        bottom := (Offsets.new target geometry).bottom } }
  else s

variable (s : Span)

def cutBefore (before : Int) : Span :=
  if 0 < before ∧ before < s.length then ⟨add s.start (axis before.toNat), s.length - before.toNat⟩ else s

def cutAfter (after : Int) : Span :=
  if 0 < after ∧ after < s.length then ⟨s.start, s.length - after.toNat⟩ else s

def resizeX (s : Placing) : Placing :=
  if s.positioner.adjustment.resizeX then
    let cut := cutAfter (cutBefore ⟨s.geometry.x, s.geometry.width⟩ s.offsets.left) s.offsets.right
    { s with geometry := { s.geometry with
        x := cut.start
        width := cut.length } }
  else s

def resizeY (s : Placing) : Placing :=
  if s.positioner.adjustment.resizeY then
    let cut := cutAfter (cutBefore ⟨s.geometry.y, s.geometry.height⟩ s.offsets.top) s.offsets.bottom
    { s with geometry := { s.geometry with
        y := cut.start
        height := cut.length } }
  else s

end Placing

namespace PositionerState

open Placing

def constrainedGeometry (p : PositionerState) (target : Rect) : Rect :=
  (resizeY (resizeX (slideY target (slideX target (flipY target (flipX target (start p target))))))).geometry

end PositionerState

/-! ### One axis -/

/-- What a positioner says about one axis. `atStart` and `atEnd` are the sides of an anchor or a gravity. -/
structure Axis where
  size : Nat
  anchorSpan : Span
  anchorAtStart : Bool
  anchorAtEnd : Bool
  gravityAtStart : Bool
  gravityAtEnd : Bool
  offset : Int
  flip : Bool
  slide : Bool
  resize : Bool
deriving DecidableEq

namespace Axis

variable (a : Axis)

def anchorPoint : Int :=
  if a.anchorAtStart then a.anchorSpan.start
  else if a.anchorAtEnd then add a.anchorSpan.start (axis a.anchorSpan.length)
  else add a.anchorSpan.start (axis (a.anchorSpan.length / 2))

def place : Span where
  start :=
    if a.gravityAtStart then xdgSub (add a.anchorPoint a.offset) (axis a.size)
    else if !a.gravityAtEnd then xdgSub (add a.anchorPoint a.offset) (axis (a.size / 2))
    else add a.anchorPoint a.offset
  length := a.size

def flipped : Axis :=
  { a with
    anchorAtStart := a.anchorAtEnd
    anchorAtEnd := a.anchorAtStart
    gravityAtStart := a.gravityAtEnd
    gravityAtEnd := a.gravityAtStart }

end Axis

namespace PositionerState

def horizontal (p : PositionerState) : Axis where
  size := p.size.width
  anchorSpan := p.anchorRect.horizontal
  anchorAtStart := p.anchor.hasLeft
  anchorAtEnd := p.anchor.hasRight
  gravityAtStart := p.gravity.hasLeft
  gravityAtEnd := p.gravity.hasRight
  offset := p.offset.x
  flip := p.adjustment.flipX
  slide := p.adjustment.slideX
  resize := p.adjustment.resizeX

def vertical (p : PositionerState) : Axis where
  size := p.size.height
  anchorSpan := p.anchorRect.vertical
  anchorAtStart := p.anchor.hasTop
  anchorAtEnd := p.anchor.hasBottom
  gravityAtStart := p.gravity.hasTop
  gravityAtEnd := p.gravity.hasBottom
  offset := p.offset.y
  flip := p.adjustment.flipY
  slide := p.adjustment.slideY
  resize := p.adjustment.resizeY

variable (p : PositionerState)

theorem geometry_horizontal : p.geometry.horizontal = p.horizontal.place := rfl

theorem geometry_vertical : p.geometry.vertical = p.vertical.place := rfl

@[simp] theorem flippedX_horizontal : p.flippedX.horizontal = p.horizontal.flipped := by
  simp [flippedX, horizontal, Axis.flipped]

@[simp] theorem flippedX_vertical : p.flippedX.vertical = p.vertical := by
  simp [flippedX, vertical]

@[simp] theorem flippedY_horizontal : p.flippedY.horizontal = p.horizontal := by
  simp [flippedY, horizontal]

@[simp] theorem flippedY_vertical : p.flippedY.vertical = p.vertical.flipped := by
  simp [flippedY, vertical, Axis.flipped]

end PositionerState

/-- A placement on one axis, and how far it reached over the target when that was last looked at. -/
structure AxisPlacing where
  span : Span
  before : Int
  after : Int
deriving DecidableEq

namespace AxisPlacing

def measure (target span : Span) : AxisPlacing := ⟨span, target.start - span.start, span.stop - target.stop⟩

def constrained (s : AxisPlacing) : Bool := 0 < s.before || 0 < s.after

def flip (a : Axis) (target : Span) (s : AxisPlacing) : AxisPlacing :=
  if s.constrained && a.flip then
    if !(measure target a.flipped.place).constrained then ⟨a.flipped.place, 0, 0⟩ else s
  else s

def slide (a : Axis) (target : Span) (s : AxisPlacing) : AxisPlacing :=
  if s.constrained && a.slide then measure target ⟨Placing.slid s.span.start s.before s.after, s.span.length⟩ else s

def resize (a : Axis) (s : AxisPlacing) : Span :=
  if a.resize then Placing.cutAfter (Placing.cutBefore s.span s.before) s.after else s.span

end AxisPlacing

def Axis.constrain (a : Axis) (target : Span) : Span :=
  ((AxisPlacing.measure target a.place).flip a target |>.slide a target).resize a

namespace Placing

variable {target : Rect} {s : Placing}

def horizontal (s : Placing) : AxisPlacing := ⟨s.geometry.horizontal, s.offsets.left, s.offsets.right⟩

def vertical (s : Placing) : AxisPlacing := ⟨s.geometry.vertical, s.offsets.top, s.offsets.bottom⟩

theorem flipX_horizontal : (flipX target s).horizontal = s.horizontal.flip s.positioner.horizontal target.horizontal := by
  have hcandidate : (Offsets.new target s.positioner.flippedX.geometry).horizontal =
      (AxisPlacing.measure target.horizontal s.positioner.horizontal.flipped.place).constrained := by
    rw [← PositionerState.flippedX_horizontal]
    rfl
  rw [flipX, AxisPlacing.flip, ← hcandidate]
  change (if s.offsets.horizontal && s.positioner.adjustment.flipX then _ else _ : Placing).horizontal =
    if s.offsets.horizontal && s.positioner.adjustment.flipX then _ else _
  split_ifs
  · rw [← PositionerState.flippedX_horizontal]
    rfl
  · rfl
  · rfl

theorem flipX_vertical (hs : s.geometry = s.positioner.geometry) : (flipX target s).vertical = s.vertical := by
  grind [flipX, vertical, PositionerState.geometry_vertical, PositionerState.flippedX_vertical]

theorem flipX_geometry (hs : s.geometry = s.positioner.geometry) :
    (flipX target s).geometry = (flipX target s).positioner.geometry := by
  grind [flipX]

theorem flipX_positioner : (flipX target s).positioner.vertical = s.positioner.vertical ∧
    (flipX target s).positioner.adjustment = s.positioner.adjustment := by
  rw [flipX]
  split_ifs
  · exact ⟨PositionerState.flippedX_vertical _, rfl⟩
  · exact ⟨rfl, rfl⟩
  · exact ⟨rfl, rfl⟩

theorem flipY_vertical : (flipY target s).vertical = s.vertical.flip s.positioner.vertical target.vertical := by
  have hcandidate : (Offsets.new target s.positioner.flippedY.geometry).vertical =
      (AxisPlacing.measure target.vertical s.positioner.vertical.flipped.place).constrained := by
    rw [← PositionerState.flippedY_vertical]
    rfl
  rw [flipY, AxisPlacing.flip, ← hcandidate]
  change (if s.offsets.vertical && s.positioner.adjustment.flipY then _ else _ : Placing).vertical =
    if s.offsets.vertical && s.positioner.adjustment.flipY then _ else _
  split_ifs
  · rw [← PositionerState.flippedY_vertical]
    rfl
  · rfl
  · rfl

theorem flipY_horizontal (hs : s.geometry = s.positioner.geometry) : (flipY target s).horizontal = s.horizontal := by
  grind [flipY, horizontal, PositionerState.geometry_horizontal, PositionerState.flippedY_horizontal]

@[simp] theorem flipY_positioner : (flipY target s).positioner = s.positioner := by
  rw [flipY]
  split_ifs <;> rfl

theorem slideX_horizontal : (slideX target s).horizontal = s.horizontal.slide s.positioner.horizontal target.horizontal := by
  change (if s.offsets.horizontal && s.positioner.adjustment.slideX then _ else _ : Placing).horizontal =
    if s.offsets.horizontal && s.positioner.adjustment.slideX then _ else _
  split_ifs <;> rfl

theorem slideX_vertical : (slideX target s).vertical = s.vertical := by
  rw [slideX]
  split_ifs <;> rfl

@[simp] theorem slideX_positioner : (slideX target s).positioner = s.positioner := by
  rw [slideX]
  split_ifs <;> rfl

theorem slideY_vertical : (slideY target s).vertical = s.vertical.slide s.positioner.vertical target.vertical := by
  change (if s.offsets.vertical && s.positioner.adjustment.slideY then _ else _ : Placing).vertical =
    if s.offsets.vertical && s.positioner.adjustment.slideY then _ else _
  split_ifs <;> rfl

theorem slideY_horizontal : (slideY target s).horizontal = s.horizontal := by
  rw [slideY]
  split_ifs <;> rfl

@[simp] theorem slideY_positioner : (slideY target s).positioner = s.positioner := by
  rw [slideY]
  split_ifs <;> rfl

theorem resizeX_horizontal : (resizeX s).geometry.horizontal = s.horizontal.resize s.positioner.horizontal := by
  change Rect.horizontal (if s.positioner.adjustment.resizeX then _ else _ : Placing).geometry =
    if s.positioner.adjustment.resizeX then _ else _
  split_ifs <;> rfl

theorem resizeX_vertical : (resizeX s).vertical = s.vertical := by
  rw [resizeX]
  split_ifs <;> rfl

@[simp] theorem resizeX_positioner : (resizeX s).positioner = s.positioner := by
  rw [resizeX]
  split_ifs <;> rfl

theorem resizeY_vertical : (resizeY s).geometry.vertical = s.vertical.resize s.positioner.vertical := by
  change Rect.vertical (if s.positioner.adjustment.resizeY then _ else _ : Placing).geometry =
    if s.positioner.adjustment.resizeY then _ else _
  split_ifs <;> rfl

theorem resizeY_horizontal : (resizeY s).geometry.horizontal = s.geometry.horizontal := by
  rw [resizeY]
  split_ifs <;> rfl

end Placing

namespace PositionerState

open Placing

variable (p : PositionerState) (target : Rect)

theorem constrainedGeometry_horizontal :
    (p.constrainedGeometry target).horizontal = p.horizontal.constrain target.horizontal := by
  have hkeep : (flipX target (start p target)).geometry = (flipX target (start p target)).positioner.geometry :=
    flipX_geometry rfl
  have hflags : ∀ s : AxisPlacing, s.resize (flipX target (start p target)).positioner.horizontal =
      s.resize p.horizontal := by
    intro s
    change (if (flipX target (start p target)).positioner.adjustment.resizeX then _ else _) = _
    rw [flipX_positioner.2]
    rfl
  have hslide : ∀ s : AxisPlacing, s.slide (flipX target (start p target)).positioner.horizontal target.horizontal =
      s.slide p.horizontal target.horizontal := by
    intro s
    change (if s.constrained && (flipX target (start p target)).positioner.adjustment.slideX then _ else _) = _
    rw [flipX_positioner.2]
    rfl
  rw [constrainedGeometry, resizeY_horizontal, resizeX_horizontal, slideY_positioner, slideX_positioner, flipY_positioner,
    hflags, slideY_horizontal, slideX_horizontal, flipY_positioner, hslide, flipY_horizontal hkeep, flipX_horizontal]
  rfl

theorem constrainedGeometry_vertical :
    (p.constrainedGeometry target).vertical = p.vertical.constrain target.vertical := by
  rw [constrainedGeometry, resizeY_vertical, resizeX_positioner, slideY_positioner, slideX_positioner, flipY_positioner,
    flipX_positioner.1, resizeX_vertical, slideY_vertical, slideX_positioner, flipY_positioner, flipX_positioner.1,
    slideX_vertical, flipY_vertical, flipX_positioner.1, flipX_vertical rfl]
  rfl

end PositionerState

/-! ### What the adjustment of one axis does -/

namespace AxisPlacing

variable {a : Axis} {s : AxisPlacing} {target span : Span}

theorem constrained_measure : (measure target span).constrained = false ↔ span.Inside target := by
  grind [constrained, measure, Span.Inside]

theorem constrained_eq_true : (measure target span).constrained = true ↔ ¬ span.Inside target := by
  rw [← constrained_measure, Bool.not_eq_false]

theorem resize_inside (hs : s.before ≤ 0) (hs' : s.after ≤ 0) : s.resize a = s.span := by
  grind [Placing.cutBefore, Placing.cutAfter, resize]

theorem slide_inside (hs : s.constrained = false) : s.slide a target = s := by
  grind [slide]

theorem slide_resize_inside (hs : s.constrained = false) : (s.slide a target).resize a = s.span := by
  grind -linarith [slide_inside, constrained, resize_inside]

theorem flip_kept (hs : span.Inside target) : (measure target span).flip a target = measure target span := by
  grind [flip, constrained_measure]

theorem flip_cases (hspan : ¬ span.Inside target) : (measure target span).flip a target = measure target span ∨
      a.flip = true ∧ a.flipped.place.Inside target ∧ (measure target span).flip a target = ⟨a.flipped.place, 0, 0⟩ := by
  grind [flip, constrained_measure]

theorem slid_eq {position before after : Int} (hposition : i32Min ≤ position ∧ position ≤ i32Max)
    (htarget : i32Min ≤ position + before ∧ position + before ≤ i32Max) : Placing.slid position before after =
      if 0 < before then position + before else if 0 < after then position - min after (-before) else position := by
  grind [Placing.slid, clampI32_of_mem, addI64]

end AxisPlacing

def InRange (s : Span) : Prop := i32Min ≤ s.start ∧ s.start ≤ i32Max

theorem Axis.place_inRange (a : Axis) : InRange a.place := by
  rw [InRange, place]
  split_ifs
  · exact clampI32_mem _
  · exact clampI32_mem _
  · exact clampI32_mem _

namespace AxisPlacing

variable {a : Axis} {target span : Span}

theorem slide_measure (hspan : InRange span) (htarget : InRange target) (hslide : a.slide = true) :
    ∃ slid, (measure target span).slide a target = measure target slid ∧ InRange slid ∧ slid.length = span.length ∧
      (span.length ≤ target.length → slid.Inside target) ∧ (span.Overlaps target → slid.Overlaps target) := by
  by_cases hinside : span.Inside target
  · exact ⟨span, slide_inside (constrained_measure.mpr hinside), hspan, rfl, fun _ => hinside, fun h => h⟩
  · refine ⟨⟨Placing.slid span.start (target.start - span.start) (span.stop - target.stop), span.length⟩, ?_, ?_, rfl, ?_, ?_⟩
    · rw [slide, constrained_eq_true.mpr hinside, hslide]
      rfl
    · rw [InRange, Placing.slid]
      split_ifs
      · exact clampI32_mem _
      · exact clampI32_mem _
      · exact hspan
    · grind [slid_eq, Span.Inside, Span.stop, InRange]
    grind [slid_eq, Span.overlaps_iff, Span.stop, InRange]

theorem slide_none (hslide : a.slide = false) : (measure target span).slide a target = measure target span := by
  grind [slide]

theorem cutBefore_measure (htarget : InRange target) (hsize : (span.length : Int) ≤ i32Max) (hoverlaps : span.Overlaps target) :
    (Placing.cutBefore span (target.start - span.start)).start = max span.start target.start ∧
      (Placing.cutBefore span (target.start - span.start)).stop = span.stop := by
  grind [Span.overlaps_iff, InRange, Span.stop, Placing.cutBefore, add, addI32, axis, clampI32]

theorem cutAfter_measure (hoverlaps : span.start < target.stop) :
    (Placing.cutAfter span (span.stop - target.stop)).start = span.start ∧
      (Placing.cutAfter span (span.stop - target.stop)).stop = min span.stop target.stop := by
  grind [Span.stop, Placing.cutAfter]

theorem resize_measure (htarget : InRange target) (hsize : (span.length : Int) ≤ i32Max) (hresize : a.resize = true)
    (hoverlaps : span.Overlaps target) :
    ((measure target span).resize a).Inside target ∧ 0 < ((measure target span).resize a).length := by
  grind [resize, measure, cutBefore_measure, Span.stop, cutAfter_measure, Span.Overlaps, min_le_right, Span.Inside]

theorem resize_none (hresize : a.resize = false) (s : AxisPlacing) : s.resize a = s.span := by
  rw [resize, hresize, if_neg Bool.false_ne_true]

end AxisPlacing

/-- What the adjustment to a target makes of a placement on one axis. `flipped` is the placement after a flip, `unflipped`
what the adjustment leads to when no flip is allowed. -/
structure Adjusted (unadjusted flipped unflipped target result : Span) (flip slide resize : Bool) : Prop where
  kept : unadjusted.Inside target → result = unadjusted
  sized : resize = false → result.length = unadjusted.length
  slid : slide = true → unadjusted.length ≤ target.length → result.Inside target
  resized : resize = true → unadjusted.Overlaps target → result.Inside target ∧ 0 < result.length
  flipped : result = unflipped ∨ flip = true ∧ ¬ unadjusted.Inside target ∧ result = flipped ∧ flipped.Inside target

namespace Axis

open AxisPlacing

variable {a : Axis} {target : Span}

theorem slide_resize (htarget : InRange target) (hsize : (a.size : Int) ≤ i32Max) (flipped : Span) (flip : Bool) :
    Adjusted a.place flipped (((measure target a.place).slide a target).resize a) target
      (((measure target a.place).slide a target).resize a) flip a.slide a.resize := by
  obtain ⟨slid, hslid, hlength, hfits, hoverlaps⟩ : ∃ slid, (measure target a.place).slide a target = measure target slid ∧
      slid.length = a.size ∧ (a.slide = true → a.size ≤ target.length → slid.Inside target) ∧
      (a.place.Overlaps target → slid.Overlaps target) := by
    cases hslide : a.slide with
    | false => exact ⟨a.place, slide_none hslide, rfl, (fun h => by cases h), fun h => h⟩
    | true =>
      obtain ⟨slid, hslid, -, hlength, hfits, hoverlaps⟩ := slide_measure a.place_inRange htarget hslide
      exact ⟨slid, hslid, hlength, fun _ => hfits, hoverlaps⟩
  rw [hslid]
  constructor
  · intro hinside
    rw [← hslid]
    exact slide_resize_inside (constrained_measure.mpr hinside)
  · intro hresize
    rw [resize_none hresize]
    exact hlength
  · intro hslide hle
    have hinside := hfits hslide hle
    have hmeasure := constrained_measure.mpr hinside
    have hkept : (measure target slid).slide a target = measure target slid := slide_inside hmeasure
    rw [← hkept, slide_resize_inside hmeasure]
    exact hinside
  · grind -linarith [resize_measure]
  · exact .inl rfl

theorem constrain_adjusted (a : Axis) (htarget : InRange target) (hsize : (a.size : Int) ≤ i32Max) :
    Adjusted a.place a.flipped.place ({ a with flip := false }.constrain target) target (a.constrain target) a.flip a.slide
      a.resize := by
  have hunflipped : { a with flip := false }.constrain target = ((measure target a.place).slide a target).resize a := by
    have hnone : ∀ s : AxisPlacing, s.flip { a with flip := false } target = s := by
      intro s
      rw [AxisPlacing.flip, Bool.and_false, if_neg Bool.false_ne_true]
    rw [constrain, hnone]
    rfl
  rw [hunflipped]
  have hadjusted := slide_resize htarget hsize a.flipped.place a.flip
  by_cases hinside : a.place.Inside target
  · grind [constrain, flip_kept]
  · rcases flip_cases (a := a) hinside with hnone | ⟨hflip, hflipped, hkept⟩
    · rw [constrain, hnone]
      exact hadjusted
    · have hresult : a.constrain target = a.flipped.place := by
        rw [constrain, hkept]
        exact slide_resize_inside rfl
      rw [hresult]
      constructor
      · exact fun h => absurd h hinside
      · exact fun _ => rfl
      · exact fun _ _ => hflipped
      · intro _ hoverlaps
        refine ⟨hflipped, ?_⟩
        exact (Span.overlaps_iff.mp hoverlaps).2.2.1
      · exact .inr ⟨hflip, hinside, rfl, hflipped⟩

end Axis

namespace PositionerState

variable (p : PositionerState)

def withoutFlipX : PositionerState := { p with adjustment := { p.adjustment with flipX := false } }

def withoutFlipY : PositionerState := { p with adjustment := { p.adjustment with flipY := false } }

/-- Each axis is adjusted on its own, by what the positioner and the target say about it. -/
theorem constrained_geometry_sound (p : PositionerState) (target : Rect) (hwidth : (p.size.width : Int) ≤ i32Max)
    (hheight : (p.size.height : Int) ≤ i32Max) (hx : InRange target.horizontal) (hy : InRange target.vertical) :
    Adjusted p.geometry.horizontal p.flippedX.geometry.horizontal (p.withoutFlipX.constrainedGeometry target).horizontal
        target.horizontal (p.constrainedGeometry target).horizontal p.adjustment.flipX p.adjustment.slideX
        p.adjustment.resizeX ∧
      Adjusted p.geometry.vertical p.flippedY.geometry.vertical (p.withoutFlipY.constrainedGeometry target).vertical
        target.vertical (p.constrainedGeometry target).vertical p.adjustment.flipY p.adjustment.slideY
        p.adjustment.resizeY ∧ ∀ (q : PositionerState) (other : Rect),
        (q.horizontal = p.horizontal → other.horizontal = target.horizontal →
          (q.constrainedGeometry other).horizontal = (p.constrainedGeometry target).horizontal) ∧
        (q.vertical = p.vertical → other.vertical = target.vertical →
          (q.constrainedGeometry other).vertical = (p.constrainedGeometry target).vertical) := by
  refine ⟨?_, ?_, fun q other => ⟨fun hq hother => ?_, fun hq hother => ?_⟩⟩
  · rw [constrainedGeometry_horizontal, constrainedGeometry_horizontal, geometry_horizontal, geometry_horizontal,
      flippedX_horizontal]
    exact p.horizontal.constrain_adjusted hx hwidth
  · rw [constrainedGeometry_vertical, constrainedGeometry_vertical, geometry_vertical, geometry_vertical,
      flippedY_vertical]
    exact p.vertical.constrain_adjusted hy hheight
  · grind [constrainedGeometry_horizontal]
  grind [constrainedGeometry_vertical]

/-- A menu of ten by forty at a point near the right edge. -/
def cornerMenu : PositionerState where
  size := ⟨10, 40⟩
  anchorRect := ⟨95, 20, 1, 1⟩
  anchor := .bottomRight
  gravity := .bottomRight
  adjustment := ⟨true, false, false, false, false, true⟩
  offset := ⟨0, 0⟩
  reactive := false
  parentSize := none
  parentConfigure := none

theorem cornerMenu_slid : cornerMenu.constrainedGeometry ⟨0, 0, 100, 50⟩ = ⟨90, 21, 10, 29⟩ ∧
    (cornerMenu.constrainedGeometry ⟨0, 0, 100, 50⟩).horizontal.Inside ⟨0, 100⟩ := by
  obtain ⟨hhorizontal, -, -⟩ := constrained_geometry_sound cornerMenu ⟨0, 0, 100, 50⟩ (by decide) (by decide)
    ⟨by decide, by decide⟩ ⟨by decide, by decide⟩
  exact ⟨by decide, hhorizontal.slid rfl (by decide)⟩

end PositionerState

end XdgShell

end TensorDE.Protocol
