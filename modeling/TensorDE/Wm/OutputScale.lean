import TensorDE.Lib.Boxes
import TensorDE.Lib.Saturating
import TensorDE.Lib.Span

set_option linter.dupNamespace false

namespace TensorDE.Wm.Output

open Saturating

structure Rect where
  x : Int
  y : Int
  width : Nat
  height : Nat
deriving DecidableEq

/-- `i32::try_from(value).unwrap_or(i32::MAX)`. -/
def toI32 (value : Nat) : Int := min value i32Max

variable (value : Int)

/-- `u32::try_from(value).unwrap_or(u32::MAX)`. -/
def toU32 : Nat := if 0 ≤ value then value.toNat else 2 ^ 32 - 1

namespace Rect

variable (r : Rect)

def right : Int := addI32 r.x (toI32 r.width)

def bottom : Int := addI32 r.y (toI32 r.height)

def horizontal : Span := ⟨r.x, r.width⟩

def vertical : Span := ⟨r.y, r.height⟩

def box : Box := ⟨r.x, r.y, r.horizontal.stop, r.vertical.stop⟩

end Rect

/-- A scale in the units of `wp_fractional_scale_v1`. -/
structure OutputScale where
  units : Nat
  least : 12 ≤ units
  most : units ≤ 1200

def roundRatio (units : Nat) : Int :=
  clampI32 (if 0 ≤ value * units then (value * units + 60) / 120 else -((-(value * units) + 60) / 120))

def floorRatio (units : Nat) : Int := clampI32 (value * units / 120)

def ceilRatio (units : Nat) : Int := clampI32 (-(-(value * units) / 120))

def mapRect (logical : Rect) (lower upper : Int → Int) : Rect :=
  let left := lower logical.x
  let top := lower logical.y
  let right := if logical.width = 0 then left else upper logical.right
  let bottom := if logical.height = 0 then top else upper logical.bottom
  ⟨left, top, toU32 (subI32 right left), toU32 (subI32 bottom top)⟩

namespace OutputScale

variable (s : OutputScale)

def physicalRectRound (logical : Rect) : Rect :=
  mapRect logical (roundRatio · s.units) (roundRatio · s.units)

def physicalRectCover (logical : Rect) : Rect :=
  mapRect logical (floorRatio · s.units) (ceilRatio · s.units)

def factor : ℚ := (s.units : ℚ) / 120

def scale (p : ℚ × ℚ) : ℚ × ℚ := (p.1 * s.factor, p.2 * s.factor)

end OutputScale

/-- The ends of a span and its length are 32-bit integers. -/
structure Represented (span : Span) : Prop where
  low : i32Min ≤ span.start
  high : span.stop ≤ i32Max
  extent : span.length ≤ i32Max

/-- So are the ends of its image, rounded outwards, and their distance. -/
structure ScaledFits (s : OutputScale) (span : Span) : Prop where
  low : i32Min ≤ ⌊span.start * s.factor⌋
  high : ⌈span.stop * s.factor⌉ ≤ i32Max
  extent : ⌈span.stop * s.factor⌉ - ⌊span.start * s.factor⌋ ≤ i32Max

namespace Rect

/-- The points of the plane in a rectangle. -/
def Contains (r : Rect) (p : ℚ × ℚ) : Prop :=
  (r.x ≤ p.1 ∧ p.1 < r.horizontal.stop) ∧ r.y ≤ p.2 ∧ p.2 < r.vertical.stop

def Represented (r : Rect) : Prop := Output.Represented r.horizontal ∧ Output.Represented r.vertical

def ScaledFits (r : Rect) (s : OutputScale) : Prop := Output.ScaledFits s r.horizontal ∧ Output.ScaledFits s r.vertical

end Rect

section Ratios

variable {s : OutputScale} {value a b : Int} {units : Nat}

theorem factor_pos (s : OutputScale) : 0 < s.factor := by
  have : (0 : ℚ) < s.units := Nat.cast_pos.mpr (lt_of_lt_of_le (by decide) s.least)
  exact div_pos this (by norm_num)

theorem mul_factor (value : Int) : value * s.factor = ((value * s.units : Int) : ℚ) / ((120 : Nat) : ℚ) := by
  rw [OutputScale.factor]
  push_cast
  ring

theorem floor_eq (value : Int) : ⌊value * s.factor⌋ = value * s.units / 120 := by
  rw [mul_factor, Rat.floor_intCast_div_natCast]
  rfl

theorem ceil_eq (value : Int) : ⌈value * s.factor⌉ = -(-(value * s.units) / 120) := by
  rw [mul_factor, Rat.ceil_intCast_div_natCast]
  rfl

theorem roundRatio_mono (units : Nat) : Monotone (roundRatio · units) := by
  intro a b h
  have hmul : a * units ≤ b * units := mul_le_mul_of_nonneg_right h (Int.natCast_nonneg _)
  grind -linarith [roundRatio, clampI32]

/-- Rounding stays between the two that go outwards. -/
theorem roundRatio_between (value : Int) (units : Nat) :
    floorRatio value units ≤ roundRatio value units ∧ roundRatio value units ≤ ceilRatio value units := by
  grind [roundRatio, floorRatio, ceilRatio, clampI32]

end Ratios

section Axis

variable {s : OutputScale} {span : Span} {lower upper : Int → Int}

/-- One axis of `mapRect`. -/
def mapSpan (lower upper : Int → Int) (span : Span) : Span :=
  ⟨lower span.start, toU32 (subI32 (if span.length = 0 then lower span.start
    else upper (addI32 span.start (toI32 span.length))) (lower span.start))⟩

theorem mapRect_horizontal (r : Rect) : (mapRect r lower upper).horizontal = mapSpan lower upper r.horizontal := rfl

theorem mapRect_vertical (r : Rect) : (mapRect r lower upper).vertical = mapSpan lower upper r.vertical := rfl

theorem addI32_toI32 (h : Represented span) : addI32 span.start (toI32 span.length) = span.stop := by
  have hmin : min (span.length : Int) i32Max = span.length := min_eq_left h.extent
  rw [toI32, hmin]
  exact clampI32_of_mem (le_trans h.low (Int.le_add_of_nonneg_right (Int.natCast_nonneg _))) h.high

theorem mapSpan_stop (h : Represented span) (hle : lower span.start ≤ upper span.stop)
    (hfits : upper span.stop - lower span.start ≤ i32Max) :
    (mapSpan lower upper span).stop = if span.length = 0 then lower span.start else upper span.stop := by
  grind [mapSpan, addI32_toI32, Span.stop, subI32_of_nonneg, toU32]

theorem span_mul_le (span : Span) (s : OutputScale) : span.start * s.units ≤ span.stop * s.units :=
  mul_le_mul_of_nonneg_right (Int.le_add_of_nonneg_right (Int.natCast_nonneg _)) (Int.natCast_nonneg _)

theorem floorRatio_eq (h : ScaledFits s span) : floorRatio span.start s.units = ⌊span.start * s.factor⌋ := by
  have hmul := span_mul_le span s
  obtain ⟨hlow, hhigh, -⟩ := h
  rw [floor_eq] at hlow ⊢
  rw [ceil_eq] at hhigh
  exact clampI32_of_mem hlow (by omega)

theorem ceilRatio_eq (h : ScaledFits s span) : ceilRatio span.stop s.units = ⌈span.stop * s.factor⌉ := by
  have hmul := span_mul_le span s
  obtain ⟨hlow, hhigh, -⟩ := h
  rw [floor_eq] at hlow
  rw [ceil_eq] at hhigh ⊢
  exact clampI32_of_mem (by omega) hhigh

theorem floor_le_ceil (span : Span) (s : OutputScale) : ⌊span.start * s.factor⌋ ≤ ⌈span.stop * s.factor⌉ := by
  have hmul := span_mul_le span s
  rw [floor_eq, ceil_eq]
  omega

def cover (s : OutputScale) (span : Span) : Span := mapSpan (floorRatio · s.units) (ceilRatio · s.units) span

theorem cover_start (h : ScaledFits s span) : (cover s span).start = ⌊span.start * s.factor⌋ := floorRatio_eq h

section

variable (hrep : Represented span)
include hrep

theorem cover_stop (h : ScaledFits s span) :
    (cover s span).stop = if span.length = 0 then ⌊span.start * s.factor⌋ else ⌈span.stop * s.factor⌉ := by
  have hle := floor_le_ceil span s
  have hextent := h.extent
  rw [← floorRatio_eq h, ← ceilRatio_eq h] at *
  exact mapSpan_stop hrep hle hextent

theorem cover_contains (h : ScaledFits s span) {x : ℚ} (hlow : span.start ≤ x)
    (hhigh : x < span.stop) : (cover s span).start ≤ x * s.factor ∧ x * s.factor < (cover s span).stop := by
  have hpos := factor_pos s
  have hne : span.length ≠ 0 := by
    rintro hzero
    have hstop : span.stop = span.start := by rw [Span.stop, hzero]; exact add_zero _
    exact absurd (hlow.trans_lt hhigh) (by rw [hstop]; exact lt_irrefl _)
  rw [cover_start h, cover_stop hrep h, if_neg hne]
  exact ⟨(Int.floor_le _).trans (mul_le_mul_of_nonneg_right hlow hpos.le),
    ((mul_lt_mul_iff_of_pos_right hpos).mpr hhigh).trans_le (Int.le_ceil _)⟩

theorem cover_proper (h : ScaledFits s span) {x : ℚ} (hlow : (cover s span).start ≤ x)
    (hhigh : x < (cover s span).stop) : span.length ≠ 0 := by
  grind [cover_start, cover_stop]

/-- An integer span that holds the image of a proper span holds its cover. -/
theorem cover_least (h : ScaledFits s span) (hne : span.length ≠ 0) {t : Span}
    (ht : ∀ x : ℚ, span.start ≤ x → x < span.stop → (t.start : ℚ) ≤ x * s.factor ∧ x * s.factor < t.stop) :
    t.start ≤ (cover s span).start ∧ (cover s span).stop ≤ t.stop := by
  have hpos := factor_pos s
  have hproper : (span.start : ℚ) < span.stop := by
    rw [Int.cast_lt, Span.stop]
    omega
  rw [cover_start h, cover_stop hrep h, if_neg hne]
  refine ⟨Int.le_floor.mpr (ht _ le_rfl hproper).1, Int.ceil_le.mpr (le_of_not_gt fun hgt => ?_)⟩
  -- a point of the image that is beyond the end of `t`
  have hback : (t.stop : ℚ) / s.factor * s.factor = t.stop := div_mul_cancel₀ _ hpos.ne'
  have hx : max (span.start : ℚ) (t.stop / s.factor) < span.stop :=
    max_lt hproper ((div_lt_iff₀ hpos).mpr hgt)
  have hge := mul_le_mul_of_nonneg_right (le_max_right (span.start : ℚ) (t.stop / s.factor)) hpos.le
  grind

theorem round_stop (h : ScaledFits s span) :
    (mapSpan (roundRatio · s.units) (roundRatio · s.units) span).stop = roundRatio span.stop s.units := by
  have hstop : span.start ≤ span.stop := Int.le_add_of_nonneg_right (Int.natCast_nonneg _)
  have hle := roundRatio_mono s.units hstop
  have hlow := (roundRatio_between span.start s.units).1
  have hhigh := (roundRatio_between span.stop s.units).2
  grind [floorRatio_eq, ceilRatio_eq, h.extent, mapSpan_stop, Span.stop]

end

end Axis

section Rectangles

variable {s : OutputScale} {r : Rect}

section

variable (hrep : r.Represented)
include hrep

theorem cover_holds (h : r.ScaledFits s) {p : ℚ × ℚ} (hp : r.Contains p) :
    (s.physicalRectCover r).Contains (s.scale p) :=
  ⟨cover_contains hrep.1 h.1 hp.1.1 hp.1.2, cover_contains hrep.2 h.2 hp.2.1 hp.2.2⟩

theorem cover_smallest (h : r.ScaledFits s) {t : Rect}
    (ht : ∀ p, r.Contains p → t.Contains (s.scale p)) {q : ℚ × ℚ} (hq : (s.physicalRectCover r).Contains q) :
    t.Contains q := by
  obtain ⟨⟨hx, hx'⟩, hy, hy'⟩ := hq
  have hwidth : r.horizontal.length ≠ 0 := cover_proper hrep.1 h.1 hx hx'
  have hheight : r.vertical.length ≠ 0 := cover_proper hrep.2 h.2 hy hy'
  have hproper : ∀ {span : Span}, span.length ≠ 0 → (span.start : ℚ) < span.stop := by
    intro span hne
    rw [Int.cast_lt, Span.stop]
    omega
  have hhorizontal := cover_least hrep.1 h.1 hwidth (t := t.horizontal) fun x hlow hhigh =>
    (ht (x, r.y) ⟨⟨hlow, hhigh⟩, le_rfl, hproper hheight⟩).1
  have hvertical := cover_least hrep.2 h.2 hheight (t := t.vertical) fun y hlow hhigh =>
    (ht (r.x, y) ⟨⟨le_rfl, hproper hwidth⟩, hlow, hhigh⟩).2
  exact ⟨⟨(Int.cast_le.mpr hhorizontal.1).trans hx, hx'.trans_le (Int.cast_le.mpr hhorizontal.2)⟩,
    (Int.cast_le.mpr hvertical.1).trans hy, hy'.trans_le (Int.cast_le.mpr hvertical.2)⟩

/-- Rounding moves the four edges independently, all of them by one function. -/
theorem round_box (h : r.ScaledFits s) : (s.physicalRectRound r).box = r.box.map (roundRatio · s.units) := by
  have hx : (s.physicalRectRound r).horizontal.stop = roundRatio r.horizontal.stop s.units := by
    rw [OutputScale.physicalRectRound, mapRect_horizontal, round_stop hrep.1 h.1]
  have hy : (s.physicalRectRound r).vertical.stop = roundRatio r.vertical.stop s.units := by
    rw [OutputScale.physicalRectRound, mapRect_vertical, round_stop hrep.2 h.2]
  rw [Rect.box, hx, hy]
  rfl

end

/-- The cover holds the exact image and is the least rectangle that does. Rounding takes every edge to the image of
that edge, so that a shared one stays shared, and a tiling to a tiling. -/
theorem physicalRect_sound (s : OutputScale) : (∀ r : Rect, r.Represented → r.ScaledFits s →
      (∀ p, r.Contains p → (s.physicalRectCover r).Contains (s.scale p)) ∧
      ∀ t : Rect, (∀ p, r.Contains p → t.Contains (s.scale p)) → ∀ q, (s.physicalRectCover r).Contains q → t.Contains q) ∧
    (∃ edge : Int → Int, ∀ r : Rect, r.Represented → r.ScaledFits s →
      (s.physicalRectRound r).box = ⟨edge r.box.x0, edge r.box.y0, edge r.box.x1, edge r.box.y1⟩) ∧
    ∀ (ι : Type) (tiles : ι → Rect) (area : Rect), area.Represented → area.ScaledFits s →
      (∀ i, (tiles i).Represented ∧ (tiles i).ScaledFits s) →
      (∀ i j, i ≠ j → Box.Apart (tiles i).box (tiles j).box) → (∀ p, area.box.Holds p ↔ ∃ i, (tiles i).box.Holds p) →
      (∀ i j, i ≠ j → Box.Apart (s.physicalRectRound (tiles i)).box (s.physicalRectRound (tiles j)).box) ∧
      ∀ p, (s.physicalRectRound area).box.Holds p ↔ ∃ i, (s.physicalRectRound (tiles i)).box.Holds p := by
  refine ⟨fun r hrep h => ⟨fun p => cover_holds hrep h, fun t ht q => cover_smallest hrep h ht⟩,
    ⟨(roundRatio · s.units), fun r => round_box⟩, fun ι tiles area harea harea' htiles happart hcover => ?_⟩
  simp only [round_box harea harea', fun i => round_box (htiles i).1 (htiles i).2]
  exact Box.map_tiles (roundRatio_mono s.units) happart hcover

/-- An edge beyond the 32-bit integers is taken for their last, although its image would be one of them. -/
theorem physicalRectCover_saturates :
    ¬ ∀ (s : OutputScale) (r : Rect), i32Min ≤ r.x ∧ r.x ≤ i32Max → i32Min ≤ r.y ∧ r.y ≤ i32Max →
      r.width < 2 ^ 32 → r.height < 2 ^ 32 → r.ScaledFits s →
        ∀ p, r.Contains p → (s.physicalRectCover r).Contains (s.scale p) := by
  intro h
  have hfits : ∀ span : Span, span = ⟨2 ^ 31 - 1, 10⟩ ∨ span = ⟨0, 1⟩ → ScaledFits ⟨12, by decide, by decide⟩ span := by
    rintro span (rfl | rfl) <;> refine ⟨?_, ?_, ?_⟩ <;> (try rw [floor_eq]) <;> (try rw [ceil_eq]) <;> decide
  have hcontains := h ⟨12, by decide, by decide⟩ ⟨2 ^ 31 - 1, 0, 10, 1⟩ (by decide) (by decide) (by decide) (by decide)
    ⟨hfits _ (.inl rfl), hfits _ (.inr rfl)⟩ (2 ^ 31 + 8, 0)
    (by norm_num [Rect.Contains, Rect.horizontal, Rect.vertical, Span.stop])
  have hlast := hcontains.1.2
  have hstop : (OutputScale.physicalRectCover ⟨12, by decide, by decide⟩ ⟨2 ^ 31 - 1, 0, 10, 1⟩).horizontal.stop =
      214748365 := by decide
  rw [hstop] at hlast
  norm_num [OutputScale.scale, OutputScale.factor] at hlast

theorem physicalRect_sound_square :
    (OutputScale.physicalRectCover ⟨150, by decide, by decide⟩ ⟨-1, -1, 2, 2⟩).Contains (-5 / 4, -5 / 4) := by
  have hrep : Represented ⟨-1, 2⟩ := ⟨by decide, by decide, by decide⟩
  have hfits : ScaledFits ⟨150, by decide, by decide⟩ ⟨-1, 2⟩ := by
    refine ⟨?_, ?_, ?_⟩ <;> (try rw [floor_eq]) <;> (try rw [ceil_eq]) <;> decide
  have hpoint := ((physicalRect_sound ⟨150, by decide, by decide⟩).1 ⟨-1, -1, 2, 2⟩ ⟨hrep, hrep⟩ ⟨hfits, hfits⟩).1
    (-1, -1) (by norm_num [Rect.Contains, Rect.horizontal, Rect.vertical, Span.stop])
  grind [OutputScale.scale, OutputScale.factor]

end Rectangles

end TensorDE.Wm.Output
