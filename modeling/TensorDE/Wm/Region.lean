import TensorDE.Lib.Boxes
import TensorDE.Wm.World

set_option linter.dupNamespace false

namespace TensorDE.Wm.Region

open List

inductive RectangleKind where
  | add
  | subtract
deriving DecidableEq

structure RegionAttributes where
  rects : List (RectangleKind × Rect)

/-- `i32::try_from(extent).unwrap_or(i32::MAX)`. -/
def clampExtent (extent : UInt32) : Int := min extent.toNat (2 ^ 31 - 1)

variable (rect : Rect)

def right : Int := min (rect.x.toInt + clampExtent rect.width) (2 ^ 31 - 1)

def bottom : Int := min (rect.y.toInt + clampExtent rect.height) (2 ^ 31 - 1)

namespace RegionAttributes

def inside (rect : Rect) (point : Int × Int) : Bool :=
  decide (rect.x.toInt ≤ point.1) && decide (rect.y.toInt ≤ point.2) && decide (point.1 < right rect) &&
    decide (point.2 < bottom rect)

def contains (attributes : RegionAttributes) (point : Int × Int) : Bool :=
  attributes.rects.foldl (fun contains entry =>
    if inside entry.2 point then decide (entry.1 = .add) else contains) false

end RegionAttributes

/-- `wl_region.add` and `wl_region.subtract`. -/
structure RegionRequest where
  kind : RectangleKind
  x : Int32
  y : Int32
  width : Int32
  height : Int32

def scaleExtent (value : Int32) : Option UInt32 := if value.toInt ≤ 0 then none else some (.ofNat value.toInt.toNat)

/-- Every client has the scale one, so that scaling and rounding leave a rectangle as it is. -/
def scaleRect (x y width height : Int32) : Option Rect := do
  let width ← scaleExtent width
  let height ← scaleExtent height
  some ⟨x, y, width, height⟩

/-- What the requests on a `wl_region` leave in it. -/
def attributesOf (requests : List RegionRequest) : RegionAttributes where
  rects := requests.filterMap fun r => (scaleRect r.x r.y r.width r.height).map (r.kind, ·)

def maxRects : Nat := 128

def pushRect (output : List Box) (rect : Box) : Option (List Box) :=
  if output.length = maxRects then none else some (output ++ [rect])

def pushWhen (c : Prop) [Decidable c] (output : List Box) (rect : Box) : Option (List Box) :=
  if c then pushRect output rect else some output

/-! Both normalisers add and subtract rectangles in the same way, with a `subtract_into` of their own. -/

section Normalize

variable (subtractInto : Box → Box → List Box → Option (List Box))

/-- The loop of `add_rect`: what is left of the added rectangle beside each existing one. -/
def carve : List Box → List Box → Option (List Box)
  | [], fragments => some fragments
  | existing :: rest, fragments => do
    let scratch ← fragments.foldlM (fun output fragment => subtractInto fragment existing output) []
    if scratch = [] then some [] else carve rest scratch

variable (rects : List Box)

def addRect (added : Box) : Option (List Box) := do
  let fragments ← carve subtractInto rects [added]
  if fragments = [] then some rects
  else if maxRects < rects.length + fragments.length then none
  else some (rects ++ fragments)

def subtractRect (removed : Box) : Option (List Box) :=
  rects.foldlM (fun output rect => subtractInto rect removed output) []

def applyRect : RectangleKind → Box → Option (List Box)
  | .add, rect => addRect subtractInto rects rect
  | .subtract, rect => subtractRect subtractInto rects rect

end Normalize

namespace ConstraintRegion

structure RegionOp where
  kind : RectangleKind
  x : Int32
  y : Int32
  width : Int32
  height : Int32

def fromOp (op : RegionOp) : Option Box :=
  if op.width.toInt ≤ 0 ∨ op.height.toInt ≤ 0 then none
  else some ⟨op.x.toInt, op.y.toInt, op.x.toInt + op.width.toInt, op.y.toInt + op.height.toInt⟩

def subtractInto (rect removed : Box) (output : List Box) : Option (List Box) :=
  let x0 := max rect.x0 removed.x0
  let y0 := max rect.y0 removed.y0
  let x1 := min rect.x1 removed.x1
  let y1 := min rect.y1 removed.y1
  if x1 ≤ x0 ∨ y1 ≤ y0 then pushRect output rect
  else do
    let output ← pushWhen (rect.y0 < y0) output { rect with y1 := y0 }
    let output ← pushWhen (y1 < rect.y1) output { rect with y0 := y1 }
    let output ← pushWhen (rect.x0 < x0) output { rect with y0, x1 := x0, y1 }
    pushWhen (x1 < rect.x1) output { rect with x0 := x1, y0, y1 }

variable (ops : List RegionOp)

/-- The rectangles of the region, or none where a bound was hit. -/
def normalize : Option (List Box) :=
  ops.foldlM (fun rects op =>
    match fromOp op with
    | none => some rects
    | some rect => applyRect subtractInto rects op.kind rect) []

def fromOps : List Box := (normalize ops).getD []

def opOf (entry : RectangleKind × Rect) : RegionOp where
  kind := entry.1
  x := entry.2.x
  y := entry.2.y
  width := .ofInt (clampExtent entry.2.width)
  height := .ofInt (clampExtent entry.2.height)

/-- `constraint_region`. -/
def opsOf (attributes : RegionAttributes) : List RegionOp := attributes.rects.map opOf

end ConstraintRegion

namespace BackgroundRegion

def fromRect (rect : Rect) : Box :=
  ⟨rect.x.toInt, rect.y.toInt, rect.x.toInt + rect.width.toNat, rect.y.toInt + rect.height.toNat⟩

def intersection (rect other : Box) : Option Box :=
  let intersection := rect.inter other
  if intersection.x0 < intersection.x1 ∧ intersection.y0 < intersection.y1 then some intersection else none

def subtractInto (rect removed : Box) (output : List Box) : Option (List Box) :=
  match intersection rect removed with
  | none => pushRect output rect
  | some overlap => do
    let output ← pushWhen (rect.y0 < overlap.y0) output { rect with y1 := overlap.y0 }
    let output ← pushWhen (overlap.y1 < rect.y1) output { rect with y0 := overlap.y1 }
    let output ← pushWhen (rect.x0 < overlap.x0) output
      { rect with y0 := overlap.y0, x1 := overlap.x0, y1 := overlap.y1 }
    pushWhen (overlap.x1 < rect.x1) output { rect with x0 := overlap.x1, y0 := overlap.y0, y1 := overlap.y1 }

variable (attributes : RegionAttributes)

def normalize : Option (List Box) :=
  attributes.rects.foldlM (fun rects entry => applyRect subtractInto rects entry.1 (fromRect entry.2)) []

def fromAttributes : List Box := (normalize attributes).getD []

end BackgroundRegion

section Subtract

variable {rect removed : Box} {output : List Box}

theorem foldlM_ite (c : Prop) [Decidable c] (b : Box) (output : List Box) :
    (if c then [b] else []).foldlM pushRect output = pushWhen c output b := by
  unfold pushWhen
  split
  · simp
  · rfl

theorem foldlM_strips (b o : Box) (output : List Box) : (b.strips o).foldlM pushRect output = (do
    let output ← pushWhen (b.y0 < o.y0) output { b with y1 := o.y0 }
    let output ← pushWhen (o.y1 < b.y1) output { b with y0 := o.y1 }
    let output ← pushWhen (b.x0 < o.x0) output ⟨b.x0, o.y0, o.x0, o.y1⟩
    pushWhen (o.x1 < b.x1) output ⟨o.x1, o.y0, b.x1, o.y1⟩) := by
  simp only [Box.strips, foldlM_append, foldlM_ite]

theorem ConstraintRegion.subtractInto_eq (rect removed : Box) (output : List Box) :
    subtractInto rect removed output = (rect.without removed).foldlM pushRect output := by
  rw [Box.without]
  by_cases hmeet : (rect.inter removed).Proper
  · have hedges : ¬ (min rect.x1 removed.x1 ≤ max rect.x0 removed.x0 ∨ min rect.y1 removed.y1 ≤ max rect.y0 removed.y0) :=
      not_or.mpr ⟨not_le.mpr hmeet.width, not_le.mpr hmeet.height⟩
    rw [if_pos hmeet, foldlM_strips, subtractInto]
    exact if_neg hedges
  · have hedges : min rect.x1 removed.x1 ≤ max rect.x0 removed.x0 ∨ min rect.y1 removed.y1 ≤ max rect.y0 removed.y0 := by
      by_contra hno
      rw [not_or, not_le, not_le] at hno
      exact hmeet ⟨hno.1, hno.2⟩
    grind [pushRect, subtractInto]

theorem BackgroundRegion.subtractInto_eq (rect removed : Box) (output : List Box) :
    subtractInto rect removed output = (rect.without removed).foldlM pushRect output := by
  rw [Box.without, subtractInto]
  by_cases hmeet : (rect.inter removed).Proper
  · grind [intersection, hmeet.width, hmeet.height, foldlM_strips]
  · have hnone : intersection rect removed = none := if_neg fun h => hmeet ⟨h.1, h.2⟩
    grind [pushRect]

theorem subtractInto_same : ConstraintRegion.subtractInto = BackgroundRegion.subtractInto := by
  grind [ConstraintRegion.subtractInto_eq, BackgroundRegion.subtractInto_eq]

end Subtract

section Pushed

variable {subtractInto : Box → Box → List Box → Option (List Box)}
  {pieces output output' rects fragments left : List Box} {removed added : Box}

theorem pushed (h : pieces.foldlM pushRect output = some output') (hle : output.length ≤ maxRects) :
    output' = output ++ pieces ∧ output'.length ≤ maxRects := by
  induction pieces generalizing output with
  | nil => grind
  | cons piece pieces ih => grind [pushRect]

/-- Subtracting from every rectangle of a list, with the bound in the middle of the splitting. -/
theorem subtracted (hsub : ∀ rect removed output,
      subtractInto rect removed output = (rect.without removed).foldlM pushRect output)
    (h : rects.foldlM (fun output rect => subtractInto rect removed output) output = some output')
    (hle : output.length ≤ maxRects) :
    output' = output ++ rects.flatMap (fun b => b.without removed) ∧ output'.length ≤ maxRects := by
  induction rects generalizing output with
  | nil => grind
  | cons rect rects ih =>
    obtain ⟨next, hone, hrest⟩ := Option.bind_eq_some_iff.mp h
    grind [pushed]

/-- Rectangles that the bound admits and that hold each point of a set once. -/
structure Normal (rects : List Box) (inside : Int × Int → Bool) : Prop where
  bounded : rects.length ≤ maxRects
  once : ∀ p, Box.cover rects p = if inside p then 1 else 0

variable {inside : Int × Int → Bool}

theorem Normal.apart (h : Normal rects inside) : rects.Pairwise Box.Apart := by
  grind [Box.pairwise_apart, h.once]

theorem Normal.holds_iff (h : Normal rects inside) (p : Int × Int) : (∃ b ∈ rects, b.Holds p) ↔ inside p = true := by
  rw [← Box.cover_pos, h.once p]
  split <;> simp_all

theorem normal_nil : Normal [] (fun _ => false) := ⟨Nat.zero_le _, fun _ => rfl⟩

section

variable (hsub : ∀ rect removed output, subtractInto rect removed output = (rect.without removed).foldlM pushRect output)
include hsub

/-- What carving leaves are the parts of the fragments that no existing rectangle holds. -/
theorem carved (h : carve subtractInto rects fragments = some left) (p : Int × Int) :
    Box.cover left p = if 0 < Box.cover rects p then 0 else Box.cover fragments p := by
  induction rects generalizing fragments with
  | nil =>
    obtain rfl : fragments = left := Option.some.inj h
    rfl
  | cons existing rects ih =>
    obtain ⟨scratch, hscratch, hrest⟩ := Option.bind_eq_some_iff.mp h
    obtain ⟨hall, -⟩ := subtracted hsub hscratch (Nat.zero_le _)
    have hcover : Box.cover scratch p = if existing.Holds p then 0 else Box.cover fragments p := by
      rw [hall, nil_append, Box.cover_flatMap_without]
    have hleft : Box.cover left p = if 0 < Box.cover rects p then 0 else Box.cover scratch p := by
      split at hrest
      · rename_i hempty
        obtain rfl : [] = left := Option.some.inj hrest
        simp [hempty]
      · exact ih hrest
    rw [hleft, hcover, Box.cover_cons]
    by_cases hex : existing.Holds p <;> simp [hex]

theorem Normal.addRect (hn : Normal rects inside) (h : addRect subtractInto rects added = some output') :
    Normal output' (fun p => decide (added.Holds p) || inside p) := by
  obtain ⟨fragments, hcarve, hrest⟩ := Option.bind_eq_some_iff.mp h
  have hcover : ∀ p, Box.cover rects p + Box.cover fragments p = if decide (added.Holds p) || inside p then 1 else 0 := by
    intro p
    rw [carved hsub hcarve p, hn.once p, Box.cover_cons, Box.cover_nil]
    grind
  split at hrest
  · obtain rfl : rects = output' := Option.some.inj hrest
    refine ⟨hn.bounded, fun p => ?_⟩
    grind [Box.cover_nil]
  · split at hrest
    · cases hrest
    · obtain rfl : rects ++ fragments = output' := Option.some.inj hrest
      refine ⟨?_, fun p => ?_⟩
      · grind
      · rw [Box.cover_append, hcover p]

theorem Normal.subtractRect (hn : Normal rects inside) (h : subtractRect subtractInto rects removed = some output') :
    Normal output' (fun p => !decide (removed.Holds p) && inside p) := by
  obtain ⟨hall, hbound⟩ := subtracted hsub h (Nat.zero_le _)
  refine ⟨hbound, fun p => ?_⟩
  grind [Box.cover_flatMap_without, hn.once]

end

/-- Whether the last of the operations that hold a point adds. -/
def lastAdds (ops : List (RectangleKind × Box)) (p : Int × Int) (inside : Bool) : Bool :=
  ops.foldl (fun inside op => if op.2.Holds p then decide (op.1 = .add) else inside) inside

theorem Normal.applyRect (hsub : ∀ rect removed output,
      subtractInto rect removed output = (rect.without removed).foldlM pushRect output)
    {op : RectangleKind × Box} (hn : Normal rects inside) (h : applyRect subtractInto rects op.1 op.2 = some output') :
    Normal output' (fun p => if op.2.Holds p then decide (op.1 = .add) else inside p) := by
  obtain ⟨kind, rect⟩ := op
  cases kind with
  | add => grind -linarith [Normal.addRect, applyRect]
  | subtract =>
    have hinside : ∀ p, (if rect.Holds p then decide (RectangleKind.subtract = .add) else inside p) =
        (!decide (rect.Holds p) && inside p) := by
      intro p
      by_cases hr : rect.Holds p <;> simp
    grind [Normal.subtractRect, applyRect]

theorem Normal.fold (hsub : ∀ rect removed output,
      subtractInto rect removed output = (rect.without removed).foldlM pushRect output)
    {ops : List (RectangleKind × Box)} (hn : Normal rects inside)
    (h : ops.foldlM (fun rects op => Region.applyRect subtractInto rects op.1 op.2) rects = some output') :
    Normal output' (fun p => lastAdds ops p (inside p)) := by
  induction ops generalizing rects inside with
  | nil =>
    obtain rfl : rects = output' := Option.some.inj h
    exact hn
  | cons op ops ih =>
    obtain ⟨next, hop, hrest⟩ := Option.bind_eq_some_iff.mp h
    exact ih (Normal.applyRect hsub hn hop) hrest

end Pushed

def RegionAttributes.Sent (attributes : RegionAttributes) : Prop :=
  ∀ entry ∈ attributes.rects,
    (0 < entry.2.width.toNat ∧ entry.2.width.toNat < 2 ^ 31) ∧ 0 < entry.2.height.toNat ∧ entry.2.height.toNat < 2 ^ 31

theorem scaleExtent_range {value : Int32} {extent : UInt32} (h : scaleExtent value = some extent) :
    0 < extent.toNat ∧ extent.toNat < 2 ^ 31 := by
  grind [scaleExtent, value.toInt_lt, UInt32.toNat_ofNat_of_lt']

theorem sent_attributesOf (requests : List RegionRequest) : (attributesOf requests).Sent := by
  intro entry hmem
  obtain ⟨r, -, hr⟩ := mem_filterMap.mp hmem
  obtain ⟨rect, hrect, rfl⟩ := Option.map_eq_some_iff.mp hr
  obtain ⟨width, hwidth, hrest⟩ := Option.bind_eq_some_iff.mp hrect
  grind [scaleExtent_range, scaleExtent]

section Sent

variable {entry : RectangleKind × Rect}
  (hwidth : 0 < entry.2.width.toNat ∧ entry.2.width.toNat < 2 ^ 31)
  (hheight : 0 < entry.2.height.toNat ∧ entry.2.height.toNat < 2 ^ 31)

variable {extent : UInt32}

theorem clampExtent_sent (h : extent.toNat < 2 ^ 31) : clampExtent extent = extent.toNat := by
  unfold clampExtent
  omega

theorem toInt_clampExtent (h : extent.toNat < 2 ^ 31) : (Int32.ofInt (clampExtent extent)).toInt = extent.toNat := by
  rw [clampExtent_sent h, Int32.toInt_ofInt_of_le (by omega) (by omega)]

include hwidth hheight

theorem fromOp_opOf : ConstraintRegion.fromOp (ConstraintRegion.opOf entry) = some (BackgroundRegion.fromRect entry.2) := by
  grind [toInt_clampExtent, ConstraintRegion.fromOp, ConstraintRegion.opOf, BackgroundRegion.fromRect]

theorem inside_iff {p : Int × Int} (hx : p.1 < 2 ^ 31 - 1) (hy : p.2 < 2 ^ 31 - 1) :
    RegionAttributes.inside entry.2 p = decide ((BackgroundRegion.fromRect entry.2).Holds p) := by
  grind [clampExtent_sent, RegionAttributes.inside, Box.Holds, BackgroundRegion.fromRect, right, bottom]

end Sent

section Attributes

theorem foldlM_agree {α β : Type} {f g : β → α → Option β} {l : List α} (h : ∀ a ∈ l, ∀ b, f b a = g b a) (b : β) :
    l.foldlM f b = l.foldlM g b := by
  induction l generalizing b with
  | nil => rfl
  | cons a l ih => grind

variable {attributes : RegionAttributes}

/-- Both normalisers run the same operations on wide rectangles. -/
def wideOps (attributes : RegionAttributes) : List (RectangleKind × Box) :=
  attributes.rects.map fun entry => (entry.1, BackgroundRegion.fromRect entry.2)

theorem background_normalize_eq (attributes : RegionAttributes) : BackgroundRegion.normalize attributes =
    (wideOps attributes).foldlM (fun rects op => applyRect BackgroundRegion.subtractInto rects op.1 op.2) [] := by
  rw [wideOps, foldlM_map]
  rfl

theorem constraint_normalize_eq (h : attributes.Sent) :
    ConstraintRegion.normalize (ConstraintRegion.opsOf attributes) = BackgroundRegion.normalize attributes := by
  rw [ConstraintRegion.normalize, ConstraintRegion.opsOf, foldlM_map, BackgroundRegion.normalize,
    subtractInto_same]
  apply foldlM_agree
  intro entry hmem rects
  obtain ⟨hwidth, hheight⟩ := h entry hmem
  rw [fromOp_opOf hwidth hheight]
  rfl

theorem contains_eq (h : attributes.Sent) {p : Int × Int} (hx : p.1 < 2 ^ 31 - 1) (hy : p.2 < 2 ^ 31 - 1) :
    attributes.contains p = lastAdds (wideOps attributes) p false := by
  rw [RegionAttributes.contains, lastAdds, wideOps, foldl_map]
  apply foldl_ext
  intro contains entry hmem
  grind [inside_iff, RegionAttributes.Sent]

theorem normal_background {rects : List Box} (h : BackgroundRegion.normalize attributes = some rects) :
    Normal rects (fun p => lastAdds (wideOps attributes) p false) := by
  rw [background_normalize_eq] at h
  exact Normal.fold BackgroundRegion.subtractInto_eq normal_nil h

end Attributes

/-- Of the rectangles that the requests on a region left, the normaliser of pointer constraints and that of background
effects make at most 128 that are apart. They give up on the same lists, with no rectangle at all; where they do not,
their rectangles hold the points that the region contains. -/
theorem normalize_exact (requests : List RegionRequest) :
    let attributes := attributesOf requests
    let constraint := ConstraintRegion.fromOps (ConstraintRegion.opsOf attributes)
    let background := BackgroundRegion.fromAttributes attributes
    (constraint.length ≤ 128 ∧ constraint.Pairwise Box.Apart) ∧
      (background.length ≤ 128 ∧ background.Pairwise Box.Apart) ∧
      (ConstraintRegion.normalize (ConstraintRegion.opsOf attributes) = none ∧
          BackgroundRegion.normalize attributes = none ∧ constraint = [] ∧ background = [] ∨
        ConstraintRegion.normalize (ConstraintRegion.opsOf attributes) = some constraint ∧
          BackgroundRegion.normalize attributes = some background ∧
          ∀ p : Int × Int, p.1 < 2 ^ 31 - 1 → p.2 < 2 ^ 31 - 1 →
            ((∃ b ∈ constraint, b.Holds p) ↔ attributes.contains p = true) ∧
              ((∃ b ∈ background, b.Holds p) ↔ attributes.contains p = true)) := by
  intro attributes constraint background
  have hsent : attributes.Sent := sent_attributesOf requests
  have hsame := constraint_normalize_eq hsent
  cases hrects : BackgroundRegion.normalize attributes with
  | none =>
    have hbackground : background = [] := congrArg (Option.getD · []) hrects
    have hconstraint : constraint = [] := congrArg (Option.getD · []) (hsame.trans hrects)
    grind
  | some rects =>
    have hbackground : background = rects := congrArg (Option.getD · []) hrects
    have hconstraint : constraint = rects := congrArg (Option.getD · []) (hsame.trans hrects)
    have hnormal := normal_background hrects
    rw [hbackground, hconstraint]
    refine ⟨⟨hnormal.bounded, hnormal.apart⟩, ⟨hnormal.bounded, hnormal.apart⟩,
      .inr ⟨hsame.trans hrects, rfl, fun p hx hy => ?_⟩⟩
    grind [hnormal.holds_iff, contains_eq]

end TensorDE.Wm.Region
