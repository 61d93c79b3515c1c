import TensorDE.Wm.OutputScale

set_option linter.dupNamespace false

namespace TensorDE.Wm.Layout

open Output Saturating List

def u32Max : Nat := 2 ^ 32 - 1

structure Size where
  width : Nat
  height : Nat
deriving DecidableEq

structure SizeConstraints where
  min : Size
  maxWidth : Option Nat
  maxHeight : Option Nat
deriving DecidableEq

def constrainAxis (desired least : Nat) (most : Option Nat) : Nat := max least (min desired (max (most.getD u32Max) least))

def SizeConstraints.constrain (c : SizeConstraints) (desired : Size) : Size :=
  ⟨constrainAxis desired.width c.min.width c.maxWidth, constrainAxis desired.height c.min.height c.maxHeight⟩

inductive LayoutLength where
  | proportion (numerator denominator : Nat)
  | fixed (pixels : Nat)
deriving DecidableEq

def LayoutLength.resolve (available : Nat) : LayoutLength → Nat
  | .proportion numerator denominator => min (available * numerator / max denominator 1) u32Max
  | .fixed pixels => pixels

def LayoutLength.resolveColumn (viewWidth gap : Nat) : LayoutLength → Nat
  | .proportion numerator denominator => (LayoutLength.proportion numerator denominator).resolve (viewWidth - gap) - gap
  | .fixed pixels => pixels

structure LayoutItem where
  constraints : SizeConstraints
  primarySize : Option LayoutLength
deriving DecidableEq

structure LayoutOptions where
  gap : Nat
  scrollingDefaultWidth : LayoutLength
  masterWidth : LayoutLength

structure LayoutState where
  horizontalOffset : Int
deriving DecidableEq

structure LayoutPlacement where
  geometry : Rect
  visible : Option Rect
deriving DecidableEq

structure LayoutSnapshot where
  viewport : Rect
  placements : List LayoutPlacement
  contentBounds : Rect
  horizontalOffset : Int
deriving DecidableEq

inductive LayoutKind where
  | scrolling1D
  | spatial2D
  | masterStack
deriving DecidableEq

def addOffset (origin : Int) (amount : Nat) : Int := addI32 origin (toI32 amount)

def intersection (r s : Rect) : Option Rect :=
  let left := max r.x s.x
  let top := max r.y s.y
  let right := min r.right s.right
  let bottom := min r.bottom s.bottom
  if right ≤ left ∨ bottom ≤ top then none else some ⟨left, top, (right - left).toNat, (bottom - top).toNat⟩

def LayoutPlacement.new (geometry viewport : Rect) : LayoutPlacement := ⟨geometry, intersection geometry viewport⟩

variable (area : Rect)

def LayoutSnapshot.empty (state : LayoutState) : LayoutSnapshot :=
  ⟨area, [], ⟨area.x, area.y, 0, 0⟩, state.horizontalOffset⟩

def fixedSnapshot (state : LayoutState) (placements : List LayoutPlacement) : LayoutSnapshot :=
  ⟨area, placements, area, state.horizontalOffset⟩

section Policy

def splitEvenly (length count : Nat) : List Nat :=
  (List.range (min count u32Max)).map fun index =>
    length / min count u32Max + if index < length % min count u32Max then 1 else 0

def splitTracks (length count gap : Nat) : List Nat :=
  splitEvenly (length - min (min (count + 1) u32Max * gap) u32Max) count

def ceilSqrtFrom (value : Nat) : Nat → Nat → Nat
  | 0, root => root
  | fuel + 1, root => if root * root < value then ceilSqrtFrom value fuel (root + 1) else root

def integerCeilSqrt (value : Nat) : Nat := ceilSqrtFrom value value 1

def placeInCell (cell viewport : Rect) (size : Size) : LayoutPlacement :=
  .new ⟨addOffset cell.x ((cell.width - size.width) / 2), addOffset cell.y ((cell.height - size.height) / 2), size.width,
    size.height⟩ viewport

def placeItem (viewport cell : Rect) (item : LayoutItem) : LayoutPlacement :=
  placeInCell cell viewport (item.constraints.constrain ⟨cell.width, cell.height⟩)

def inset (area : Rect) (gap : Nat) : Rect :=
  ⟨addOffset area.x gap, addOffset area.y gap, area.width - min (gap * 2) u32Max, area.height - min (gap * 2) u32Max⟩

/-- The tracks of these lengths one after the other, the first of them at `origin`. -/
def tracks (gap : Nat) : Int → List Nat → List Span
  | _, [] => []
  | origin, length :: lengths => ⟨origin, length⟩ :: tracks gap (addOffset (addOffset origin length) gap) lengths

def cell (horizontal vertical : Span) : Rect := ⟨horizontal.start, vertical.start, horizontal.length, vertical.length⟩

variable (count : Nat)

def columnsOf : Nat := integerCeilSqrt count

def rowsOf : Nat := (count + (columnsOf count - 1)) / columnsOf count

variable (options : LayoutOptions)

/-- The cells in the order of the two loops, which end with the last item. -/
def gridCells (area : Rect) (count : Nat) : List Rect :=
  (tracks options.gap (addOffset area.y options.gap) (splitTracks area.height (rowsOf count) options.gap)).flatMap
    fun vertical =>
      (tracks options.gap (addOffset area.x options.gap) (splitTracks area.width (columnsOf count) options.gap)).map
        fun horizontal => cell horizontal vertical

def arrangeGrid (state : LayoutState) (area : Rect) (items : List LayoutItem) : LayoutSnapshot :=
  if items = [] then .empty area state
  else fixedSnapshot area state (List.zipWith (placeItem area) (gridCells options area items.length) items)

def masterWidth (options : LayoutOptions) (inner : Rect) : Nat :=
  min (options.masterWidth.resolve (inner.width - options.gap)) (inner.width - options.gap)

def masterStackCells (area : Rect) (count : Nat) : List Rect :=
  let inner := inset area options.gap
  if count = 1 then [inner]
  else
    ⟨inner.x, inner.y, masterWidth options inner, inner.height⟩ ::
      (tracks options.gap inner.y (splitTracks inner.height (count - 1) options.gap)).map
        (cell ⟨addOffset (addOffset inner.x (masterWidth options inner)) options.gap,
          inner.width - options.gap - masterWidth options inner⟩)

def arrangeMasterStack (state : LayoutState) (area : Rect) (items : List LayoutItem) :
    LayoutSnapshot :=
  if items = [] then .empty area state
  else fixedSnapshot area state (List.zipWith (placeItem area) (masterStackCells options area items.length) items)

end Policy

section Scrolling

def distance (left right : Int) : Nat := toU32 (subI32 right left)

variable (options : LayoutOptions)

def padding (area : Rect) : Nat := min options.gap (area.width / 2)

def columnSize (area : Rect) (item : LayoutItem) : Size :=
  item.constraints.constrain
    ⟨(item.primarySize.getD options.scrollingDefaultWidth).resolveColumn area.width options.gap,
      area.height - min (padding options area * 2) u32Max⟩

def column (area : Rect) (span : Span) (size : Size) : Rect :=
  ⟨span.start, addOffset (addOffset area.y (padding options area))
    ((area.height - min (padding options area * 2) u32Max - size.height) / 2), span.length, size.height⟩

/-- Where the next track would begin. -/
def tracksEnd (gap : Nat) : Int → List Nat → Int
  | origin, [] => origin
  | origin, length :: lengths => tracksEnd gap (addOffset (addOffset origin length) gap) lengths

def baseColumns (area : Rect) (items : List LayoutItem) : List Rect :=
  let sizes := items.map (columnSize options area)
  List.zipWith (column options area) (tracks options.gap (addOffset area.x (padding options area)) (sizes.map (·.width))) sizes

def contentWidth (area : Rect) (items : List LayoutItem) : Nat :=
  distance area.x (addOffset (tracksEnd options.gap (addOffset area.x (padding options area))
    (items.map fun item => (columnSize options area item).width)) (padding options area - options.gap))

variable (area : Rect)

def viewLeft (padding : Nat) : Int := addOffset area.x padding

def viewRight (padding : Nat) : Int := subI32 area.right (toI32 padding)

/-- The offset that brings the end of the content to the right end of the view. -/
def minimumOffset (padding contentWidth : Nat) : Int :=
  min (viewRight area padding - (area.x + contentWidth - padding)) 0

def revealOffset (viewLeft viewRight offset : Int) (focused : Rect) : Int :=
  if viewRight - viewLeft ≤ focused.width then viewLeft - focused.x
  else if focused.x + offset < viewLeft then offset + (viewLeft - (focused.x + offset))
  else if viewRight < focused.right + offset then offset - (focused.right + offset - viewRight)
  else offset

def updateViewOffset (state : LayoutState) (area : Rect) (padding contentWidth : Nat) (base : List Rect)
    (focused : Option Nat) : LayoutState :=
  if contentWidth ≤ area.width then ⟨0⟩
  else
    let minimum := minimumOffset area padding contentWidth
    let offset := max minimum (min state.horizontalOffset 0)
    let offset := match focused.bind (base[·]?) with
      | some focused => revealOffset (viewLeft area padding) (viewRight area padding) offset focused
      | none => offset
    ⟨clampI32 (max minimum (min offset 0))⟩

def arrangeScrolling (state : LayoutState) (area : Rect) (items : List LayoutItem)
    (focused : Option Nat) : LayoutSnapshot × LayoutState :=
  if items = [] then (.empty area ⟨0⟩, ⟨0⟩)
  else
    let base := baseColumns options area items
    let content := contentWidth options area items
    let state := updateViewOffset state area (padding options area) content base focused
    (⟨area, base.map fun r => .new { r with x := addI32 r.x state.horizontalOffset } area,
      ⟨addI32 area.x state.horizontalOffset, area.y, content,
        min ((items.map fun item => (columnSize options area item).height).foldl max 0 +
          min (padding options area * 2) u32Max) u32Max⟩, state.horizontalOffset⟩, state)

end Scrolling

structure LayoutEngine where
  kind : LayoutKind
  options : LayoutOptions

def LayoutEngine.arrange (engine : LayoutEngine) (state : LayoutState) (area : Rect) (items : List LayoutItem)
    (focused : Option Nat) : LayoutSnapshot × LayoutState :=
  match engine.kind with
  | .scrolling1D => arrangeScrolling engine.options state area items focused
  | .spatial2D => (arrangeGrid engine.options ⟨0⟩ area items, ⟨0⟩)
  | .masterStack => (arrangeMasterStack engine.options ⟨0⟩ area items, ⟨0⟩)

section Tracks

variable {gap : Nat} {origin bound : Int} {lengths : List Nat} {options : LayoutOptions} {area : Rect}

theorem addOffset_eq {amount : Nat} (hlow : i32Min ≤ origin) (hamount : amount ≤ i32Max) (hhigh : origin + amount ≤ i32Max) :
    addOffset origin amount = origin + amount :=
  @addI32_toI32 ⟨origin, amount⟩ ⟨hlow, hhigh, hamount⟩

/-- The tracks and the gaps between them do not go beyond `bound`. -/
structure Room (gap : Nat) (origin bound : Int) (lengths : List Nat) : Prop where
  low : i32Min ≤ origin
  high : bound ≤ i32Max
  near : bound ≤ origin + i32Max
  fits : origin + lengths.sum + lengths.length * gap ≤ bound + gap

theorem Room.tail {length : Nat} (h : Room gap origin bound (length :: lengths)) (hne : lengths ≠ []) :
    addOffset (addOffset origin length) gap = origin + length + gap ∧
      Room gap (origin + length + gap) bound lengths := by
  obtain ⟨hlow, hhigh, hnear, hfits⟩ := h
  have hcount : 1 * gap ≤ lengths.length * gap := Nat.mul_le_mul_right _ (length_pos_iff.mpr hne)
  rw [sum_cons, length_cons] at hfits
  simp only [Nat.cast_add, add_mul] at hfits
  have hlength : addOffset origin length = origin + length := addOffset_eq hlow (by omega) (by omega)
  rw [hlength, addOffset_eq (by omega) (by omega) (by omega)]
  exact ⟨rfl, by omega, hhigh, by omega, by omega⟩

theorem length_tracks : (tracks gap origin lengths).length = lengths.length := by
  induction lengths generalizing origin with
  | nil => rfl
  | cons length lengths ih => exact congrArg Nat.succ ih

theorem tracks_apart (h : Room gap origin bound lengths) :
    (∀ s ∈ tracks gap origin lengths, origin ≤ s.start ∧ s.stop ≤ bound) ∧
      (tracks gap origin lengths).Pairwise fun s t : Span => s.stop + gap ≤ t.start := by
  induction lengths generalizing origin with
  | nil => exact ⟨by simp [tracks], .nil⟩
  | cons length lengths ih =>
    have hfits := h.fits
    rw [sum_cons, length_cons] at hfits
    simp only [Nat.cast_add, add_mul] at hfits
    have hgaps : (0 : Int) ≤ lengths.length * gap := by exact_mod_cast Nat.zero_le _
    have hfirst : (⟨origin, length⟩ : Span).stop ≤ bound := by
      rw [Span.stop]
      dsimp only
      omega
    obtain rfl | hne := eq_or_ne lengths []
    · grind [tracks]
    obtain ⟨hnext, hroom⟩ := h.tail hne
    obtain ⟨hinside, hpairwise⟩ := ih hroom
    rw [tracks, hnext]
    refine ⟨fun s hs => ?_, pairwise_cons.mpr ⟨fun s hs => (hinside s hs).1, hpairwise⟩⟩
    grind

end Tracks

section Cells

variable {options : LayoutOptions} {area r s : Rect} {items : List LayoutItem} {gap length count : Nat}

theorem length_splitEvenly (h : count ≤ u32Max) : (splitEvenly length count).length = count := by
  rw [splitEvenly, length_map, length_range, Nat.min_eq_left h]

theorem sum_splitEvenly (hpos : 0 < count) (h : count ≤ u32Max) : (splitEvenly length count).sum = length := by
  have hsums : ∀ k, ((range k).map fun index => length / count + if index < length % count then 1 else 0).sum =
      length / count * k + min (length % count) k := by
    intro k
    induction k with
    | zero => simp
    | succ k ih =>
      rw [range_succ, map_append, sum_append, ih, Nat.mul_succ]
      simp only [map_cons, map_nil, sum_cons, sum_nil]
      split_ifs <;> omega
  rw [splitEvenly, Nat.min_eq_left h, hsums, Nat.min_eq_left (Nat.mod_lt _ hpos).le, Nat.mul_comm]
  exact Nat.div_add_mod _ _

theorem ceilSqrtFrom_spec (value fuel root : Nat) (hroot : 0 < root) (hbelow : (root - 1) * (root - 1) < value ∨ root = 1)
    (hfuel : value ≤ fuel + root) :
    0 < ceilSqrtFrom value fuel root ∧ value ≤ ceilSqrtFrom value fuel root * ceilSqrtFrom value fuel root ∧
      ((ceilSqrtFrom value fuel root - 1) * (ceilSqrtFrom value fuel root - 1) < value ∨
        ceilSqrtFrom value fuel root = 1) := by
  induction fuel generalizing root with
  | zero => exact ⟨hroot, by rw [ceilSqrtFrom]; nlinarith, hbelow⟩
  | succ fuel ih =>
    rw [ceilSqrtFrom]
    split_ifs with hlt
    · exact ih (root + 1) (by omega) (.inl (by simpa using hlt)) (by omega)
    · exact ⟨hroot, not_lt.mp hlt, hbelow⟩

def Inside (area r : Rect) : Prop :=
  (area.x ≤ r.x ∧ r.horizontal.stop ≤ area.horizontal.stop) ∧ area.y ≤ r.y ∧ r.vertical.stop ≤ area.vertical.stop

/-- Rectangles with a gap between them along an axis. -/
def Separated (gap : Nat) (r s : Rect) : Prop :=
  r.horizontal.stop + gap ≤ s.x ∨ s.horizontal.stop + gap ≤ r.x ∨ r.vertical.stop + gap ≤ s.y ∨ s.vertical.stop + gap ≤ r.y

theorem Separated.apart (h : Separated gap r s) : Box.Apart r.box s.box := by
  rintro p ⟨⟨⟨hx, hx'⟩, hy, hy'⟩, ⟨hsx, hsx'⟩, hsy, hsy'⟩
  grind [Rect.box, Separated]

theorem Separated.mono {r' s' : Rect} (h : Separated gap r s) (hr : Inside r r') (hs : Inside s s') :
    Separated gap r' s' := by
  grind [Separated, Inside]

theorem Inside.trans {t : Rect} (h : Inside area r) (h' : Inside r t) : Inside area t := by
  rw [Inside] at *
  omega

def Fits (cell : Rect) (item : LayoutItem) : Prop :=
  item.constraints.min.width ≤ cell.width ∧ item.constraints.min.height ≤ cell.height

theorem placeItem_inside (harea : area.Represented) (hcell : Inside area r) {item : LayoutItem} (hfits : Fits r item) :
    Inside r (placeItem area r item).geometry := by
  obtain ⟨⟨hlow, hhigh, hextent⟩, hlow', hhigh', hextent'⟩ := harea
  grind [SizeConstraints.constrain, constrainAxis, Rect.horizontal, Rect.vertical, Span.stop,
      placeItem, placeInCell, LayoutPlacement.new, addOffset_eq, Inside, Fits]

/-- The gaps around and between the tracks, the area itself and the items' least sizes leave nothing to be cut off. -/
structure Tileable (cells : Rect → Nat → List Rect) (gaps : Nat → Nat × Nat) (gap : Nat) (area : Rect)
    (items : List LayoutItem) : Prop where
  edges : area.Represented
  width : (gaps items.length).1 * gap ≤ area.width
  height : (gaps items.length).2 * gap ≤ area.height
  minimum : ∀ p ∈ (cells area items.length).zip items, Fits p.1 p.2

def Tiles (gap : Nat) (area : Rect) (items : List LayoutItem) (placements : List LayoutPlacement) : Prop :=
  placements.length = items.length ∧ (∀ p ∈ placements, Inside area p.geometry) ∧
    placements.Pairwise fun p q => Box.Apart p.geometry.box q.geometry.box ∧ Separated gap p.geometry q.geometry

theorem tiles_of_cells {cells : List Rect} (harea : area.Represented) (hcount : items.length ≤ cells.length)
    (hinside : ∀ c ∈ cells, Inside area c) (hpairwise : cells.Pairwise (Separated gap))
    (hfits : ∀ p ∈ cells.zip items, Fits p.1 p.2) :
    Tiles gap area items (List.zipWith (placeItem area) cells items) := by
  refine ⟨by rw [length_zipWith, Nat.min_eq_right hcount], ?_, ?_⟩
  · intro p hp
    obtain ⟨c, item, hmem, rfl⟩ : ∃ c item, (c, item) ∈ cells.zip items ∧ placeItem area c item = p := by
      rw [← map_uncurry_zip_eq_zipWith, mem_map] at hp
      grind
    have hc := hinside c (of_mem_zip hmem).1
    exact hc.trans (placeItem_inside harea hc (hfits _ hmem))
  · clear hcount
    induction cells generalizing items with
    | nil => exact List.Pairwise.nil
    | cons c cells ih =>
      cases items with
      | nil => exact List.Pairwise.nil
      | cons item items =>
        obtain ⟨hfirst, hrest⟩ := pairwise_cons.mp hpairwise
        refine pairwise_cons.mpr ⟨fun q hq => ?_, ih (fun c hc => hinside c (mem_cons_of_mem _ hc)) hrest
          fun p hp => hfits p (mem_cons_of_mem _ hp)⟩
        rw [← map_uncurry_zip_eq_zipWith, mem_map] at hq
        obtain ⟨⟨d, other⟩, hmem, rfl⟩ := hq
        have hd := (of_mem_zip hmem).1
        have hplaced := (hfirst d hd).mono
          (placeItem_inside harea (hinside c mem_cons_self) (hfits (c, item) mem_cons_self))
          (placeItem_inside harea (hinside d (mem_cons_of_mem _ hd)) (hfits _ (mem_cons_of_mem _ hmem)))
        exact ⟨hplaced.apart, hplaced⟩

def gridGaps (count : Nat) : Nat × Nat := (columnsOf count + 1, rowsOf count + 1)

def masterStackGaps (count : Nat) : Nat × Nat := if count = 1 then (2, 2) else (3, count)

theorem splitTracks_eq (hlength : length ≤ u32Max) : splitTracks length count gap = splitEvenly (length - (count + 1) * gap) count := by
  obtain rfl | hgap := Nat.eq_zero_or_pos gap
  · simp [splitTracks]
  have hbig : u32Max ≤ u32Max * gap := Nat.le_mul_of_pos_right _ hgap
  rw [splitTracks]
  congr 1
  obtain hle | hle := le_total (count + 1) u32Max
  · rw [Nat.min_eq_left hle]
    omega
  · have hmul := Nat.mul_le_mul_right gap hle
    rw [Nat.min_eq_right hle]
    omega

variable {span : Span}

theorem splitTracks_room (hspan : Represented span) (hpos : 0 < count) (hcount : count ≤ u32Max)
    (hgaps : (count - 1) * gap ≤ span.length) : Room gap span.start span.stop (splitTracks span.length count gap) ∧
      (splitTracks span.length count gap).length = count := by
  obtain ⟨hlow, hhigh, hextent⟩ := hspan
  have hbound : span.length ≤ u32Max := by
    simp only [i32Max, u32Max] at *
    omega
  rw [splitTracks_eq hbound]
  have hlength := @length_splitEvenly (span.length - (count + 1) * gap) _ hcount
  refine ⟨⟨hlow, hhigh, by rw [Span.stop]; omega, ?_⟩, hlength⟩
  grind [sum_splitEvenly, Span.stop, Nat.sub_one_mul]

/-- The same between an outer gap at either end. -/
theorem splitTracks_inset (hspan : Represented span) (hpos : 0 < count) (hcount : count ≤ u32Max)
    (hgaps : (count + 1) * gap ≤ span.length) : addOffset span.start gap = span.start + gap ∧
      Room gap (span.start + gap) (span.stop - gap) (splitTracks span.length count gap) ∧
      (splitTracks span.length count gap).length = count := by
  obtain ⟨hlow, hhigh, hextent⟩ := hspan
  have hadd : (count + 1) * gap = count * gap + gap := Nat.succ_mul _ _
  have hbound : span.length ≤ u32Max := by
    simp only [i32Max, u32Max] at *
    omega
  rw [Span.stop] at *
  rw [splitTracks_eq hbound, addOffset_eq hlow (by omega) (by omega)]
  have hlength := @length_splitEvenly (span.length - (count + 1) * gap) _ hcount
  refine ⟨rfl, ⟨by omega, by omega, by omega, ?_⟩, hlength⟩
  grind [sum_splitEvenly]

theorem columnsOf_spec (count : Nat) : 0 < columnsOf count ∧ count ≤ columnsOf count * columnsOf count ∧
      ((columnsOf count - 1) * (columnsOf count - 1) < count ∨ columnsOf count = 1) :=
  ceilSqrtFrom_spec count count 1 Nat.one_pos (.inr rfl) (by omega)

theorem rowsOf_spec (count : Nat) (hpos : 0 < count) :
    0 < rowsOf count ∧ count ≤ rowsOf count * columnsOf count ∧ rowsOf count ≤ columnsOf count := by
  obtain ⟨hcolumns, hsquare, -⟩ := columnsOf_spec count
  rw [rowsOf]
  generalize columnsOf count = c at *
  have hdiv := Nat.div_add_mod (count + (c - 1)) c
  have hmod := Nat.mod_lt (count + (c - 1)) hcolumns
  have hle : (count + (c - 1)) / c ≤ c := by
    refine Nat.le_of_lt_succ ((Nat.div_lt_iff_lt_mul hcolumns).mpr ?_)
    rw [Nat.succ_mul]
    omega
  grind

theorem columnsOf_le (h : count ≤ u32Max * u32Max) : columnsOf count ≤ u32Max := by
  obtain ⟨-, -, hbelow | hone⟩ := columnsOf_spec count
  · refine not_lt.mp fun hlt => ?_
    have := Nat.mul_le_mul (Nat.le_sub_one_of_lt hlt) (Nat.le_sub_one_of_lt hlt)
    omega
  · rw [hone]
    decide

theorem cell_inside {horizontal vertical : Span} (hx : area.x ≤ horizontal.start ∧ horizontal.stop ≤ area.horizontal.stop)
    (hy : area.y ≤ vertical.start ∧ vertical.stop ≤ area.vertical.stop) : Inside area (cell horizontal vertical) :=
  ⟨hx, hy⟩

variable (state : LayoutState)

theorem grid_tiles (hcount : items.length ≤ u32Max * u32Max)
    (h : Tileable (gridCells options) gridGaps options.gap area items) :
    Tiles options.gap area items (arrangeGrid options state area items).placements := by
  obtain ⟨harea, hwidth, hheight, hfits⟩ := h
  rw [arrangeGrid]
  split_ifs with hnil
  · subst hnil
    exact ⟨rfl, fun p hp => absurd hp not_mem_nil, List.Pairwise.nil⟩
  have hpos : 0 < items.length := length_pos_iff.mpr hnil
  obtain ⟨hcolumns, -⟩ := columnsOf_spec items.length
  obtain ⟨hrows, hcells, hle⟩ := rowsOf_spec _ hpos
  have hmost := columnsOf_le hcount
  obtain ⟨hx, hroomx, hlenx⟩ := splitTracks_inset harea.1 hcolumns hmost hwidth
  obtain ⟨hy, hroomy, hleny⟩ := splitTracks_inset harea.2 hrows (hle.trans hmost) hheight
  obtain ⟨hinx, hpairx⟩ := tracks_apart hroomx
  obtain ⟨hiny, hpairy⟩ := tracks_apart hroomy
  refine tiles_of_cells harea ?_ ?_ ?_ hfits
  · rw [gridCells, length_flatMap]
    simp only [length_map, length_tracks, map_const', sum_replicate]
    rw [show (splitTracks area.width _ _).length = _ from hlenx, show (splitTracks area.height _ _).length = _ from hleny]
    exact hcells
  · intro c hc
    rw [gridCells, mem_flatMap] at hc
    obtain ⟨vertical, hv, hc⟩ := hc
    obtain ⟨horizontal, hh, rfl⟩ := mem_map.mp hc
    rw [show addOffset area.y _ = _ from hy] at hv
    rw [show addOffset area.x _ = _ from hx] at hh
    have hv := hiny vertical hv
    have hh := hinx horizontal hh
    exact cell_inside ⟨by simp only [Rect.horizontal] at hh; omega, by omega⟩ ⟨by simp only [Rect.vertical] at hv; omega, by omega⟩
  · rw [gridCells, show addOffset area.y _ = _ from hy, show addOffset area.x _ = _ from hx]
    refine pairwise_flatMap.mpr ⟨fun vertical _ => ?_, hpairy.imp fun {v v'} hv => ?_⟩
    · exact (pairwise_map).mpr (hpairx.imp fun hs => .inl hs)
    · intro r hr s hs
      obtain ⟨horizontal, -, rfl⟩ := mem_map.mp hr
      obtain ⟨horizontal', -, rfl⟩ := mem_map.mp hs
      exact .inr (.inr (.inl hv))

theorem masterStack_tiles (hcount : items.length ≤ u32Max + 1)
    (h : Tileable (masterStackCells options) masterStackGaps options.gap area items) :
    Tiles options.gap area items (arrangeMasterStack options state area items).placements := by
  obtain ⟨harea, hwidth, hheight, hfits⟩ := h
  rw [arrangeMasterStack]
  split_ifs with hnil
  · subst hnil
    exact ⟨rfl, fun p hp => absurd hp not_mem_nil, List.Pairwise.nil⟩
  have hpos : 0 < items.length := length_pos_iff.mpr hnil
  -- the outer gaps leave the inner rectangle
  have houter : 2 * options.gap ≤ area.width ∧ 2 * options.gap ≤ area.height := by
    rw [masterStackGaps] at hwidth hheight
    split_ifs at hwidth hheight with hone
    · exact ⟨hwidth, hheight⟩
    · have htwo := Nat.mul_le_mul_right options.gap (show 2 ≤ items.length by omega)
      exact ⟨by omega, htwo.trans hheight⟩
  obtain ⟨⟨hlowx, hhighx, hextentx⟩, hlowy, hhighy, hextenty⟩ := harea
  simp only [Rect.horizontal, Rect.vertical, Span.stop] at hlowx hhighx hextentx hlowy hhighy hextenty
  have hmax : u32Max = 2 * i32Max.toNat + 1 ∧ (i32Max.toNat : Int) = i32Max := by decide
  have hinset : (inset area options.gap).x = area.x + options.gap ∧ (inset area options.gap).y = area.y + options.gap ∧
      (inset area options.gap).width = area.width - options.gap * 2 ∧
      (inset area options.gap).height = area.height - options.gap * 2 := by
    rw [inset, addOffset_eq hlowx (by omega) (by omega), addOffset_eq hlowy (by omega) (by omega),
      Nat.min_eq_left (by omega)]
    exact ⟨rfl, rfl, rfl, rfl⟩
  have harea : area.Represented := ⟨⟨hlowx, hhighx, hextentx⟩, hlowy, hhighy, hextenty⟩
  simp only [masterStackCells] at hfits ⊢
  generalize inset area options.gap = inner at *
  split_ifs at hfits ⊢ with hone
  · refine tiles_of_cells harea (by rw [hone]; exact le_rfl) (fun c hc => ?_) (pairwise_singleton _ _) hfits
    grind [Inside, Rect.horizontal, Rect.vertical, Span.stop]
  simp only [masterStackGaps, if_neg hone] at hwidth hheight
  have hmaster : masterWidth options inner ≤ inner.width - options.gap := Nat.min_le_right _ _
  generalize masterWidth options inner = master at *
  have hstackx : addOffset (addOffset inner.x master) options.gap = inner.x + master + options.gap := by
    have hfirst : addOffset inner.x master = inner.x + master := addOffset_eq (by omega) (by omega) (by omega)
    rw [hfirst, addOffset_eq (by omega) (by omega) (by omega)]
  have hinner : Represented inner.vertical := by
    refine ⟨?_, ?_, ?_⟩ <;> simp only [Rect.vertical, Span.stop] <;> omega
  have hgaps : (items.length - 1 - 1) * options.gap ≤ inner.height := by
    rw [Nat.sub_sub, Nat.sub_mul]
    omega
  obtain ⟨hroom, hlen⟩ := splitTracks_room hinner (by omega) (by omega) hgaps
  obtain ⟨hin, hpair⟩ := tracks_apart hroom
  simp only [Rect.vertical] at hlen hin hpair
  rw [hstackx] at hfits ⊢
  refine tiles_of_cells harea ?_ (fun c hc => ?_) (pairwise_cons.mpr ⟨fun c hc => ?_, ?_⟩) hfits
  · rw [length_cons, length_map, length_tracks, hlen]
    omega
  · obtain rfl | hc := mem_cons.mp hc
    · simp only [Inside, Rect.horizontal, Rect.vertical, Span.stop]
      omega
    · obtain ⟨vertical, hv, rfl⟩ := mem_map.mp hc
      have hv := hin vertical hv
      simp only [Span.stop] at hv
      simp only [Inside, cell, Rect.horizontal, Rect.vertical, Span.stop]
      omega
  · obtain ⟨vertical, -, rfl⟩ := mem_map.mp hc
    exact .inl le_rfl
  · exact (pairwise_map).mpr (hpair.imp fun hs => .inr (.inr (.inl hs)))

/-- The tiles of both policies, as long as there are no more tracks than `u32` numbers. -/
theorem arrange_tiles (options : LayoutOptions) (state : LayoutState) (area : Rect) (items : List LayoutItem) :
    (items.length ≤ u32Max * u32Max → Tileable (gridCells options) gridGaps options.gap area items →
      Tiles options.gap area items (arrangeGrid options state area items).placements) ∧
    (items.length ≤ u32Max + 1 → Tileable (masterStackCells options) masterStackGaps options.gap area items →
      Tiles options.gap area items (arrangeMasterStack options state area items).placements) :=
  ⟨grid_tiles state, masterStack_tiles state⟩

theorem arrange_tiles_three : Tiles 8 ⟨0, 0, 300, 200⟩ (List.replicate 3 ⟨⟨⟨1, 1⟩, none, none⟩, none⟩)
      (arrangeGrid ⟨8, .proportion 1 2, .proportion 11 20⟩ ⟨0⟩ ⟨0, 0, 300, 200⟩
        (List.replicate 3 ⟨⟨⟨1, 1⟩, none, none⟩, none⟩)).placements :=
  (arrange_tiles ⟨8, .proportion 1 2, .proportion 11 20⟩ ⟨0⟩ ⟨0, 0, 300, 200⟩ _).1 (by decide)
    ⟨⟨⟨by decide, by decide, by decide⟩, by decide, by decide, by decide⟩, by decide, by decide, by
      simp only [Fits]
      decide⟩

/-- The stack has no track for an item beyond the last `u32` number. -/
theorem masterStack_drops_items :
    ¬ ∀ (options : LayoutOptions) (state : LayoutState) (area : Rect) (items : List LayoutItem),
      Tileable (masterStackCells options) masterStackGaps options.gap area items →
        Tiles options.gap area items (arrangeMasterStack options state area items).placements := by
  intro h
  obtain ⟨n, hn⟩ : ∃ n, n = u32Max + 2 := ⟨_, rfl⟩
  have hall := h ⟨0, .fixed 0, .fixed 0⟩ ⟨0⟩ ⟨0, 0, 0, 0⟩ (List.replicate n ⟨⟨⟨0, 0⟩, none, none⟩, none⟩)
    ⟨⟨⟨by decide, by decide, by decide⟩, by decide, by decide, by decide⟩, Nat.zero_le _, Nat.zero_le _, fun p hp => by
      rw [eq_of_mem_replicate (of_mem_zip hp).2]
      exact ⟨Nat.zero_le _, Nat.zero_le _⟩⟩
  grind [replicate_eq_nil_iff, arrangeMasterStack, fixedSnapshot, length_zipWith, length_replicate,
      masterStackCells, length_cons, length_map, length_tracks, splitTracks, splitEvenly, length_range,
      masterStackCells, masterStackGaps, Tiles,
      arrangeMasterStack, u32Max]

end Cells

section View

variable {options : LayoutOptions} {state : LayoutState} {area r : Rect} {items : List LayoutItem} {gap : Nat} {origin : Int}

def total (options : LayoutOptions) (area : Rect) (widths : List Nat) : Nat :=
  padding options area + (widths.sum + widths.length * options.gap)

/-- What must not leave the 32-bit integers: the area, the content and the columns where they are placed. -/
structure InRange (options : LayoutOptions) (area : Rect) (widths : List Nat) (offset : Int) : Prop where
  edges : Represented area.horizontal
  content : total options area widths ≤ i32Max
  right : area.x + total options area widths ≤ i32Max
  left : i32Min ≤ area.x + padding options area + offset

theorem tracksEnd_eq {lengths : List Nat} (hlow : i32Min ≤ origin)
    (hextent : (lengths.sum + lengths.length * gap : Nat) ≤ i32Max)
    (hhigh : origin + (lengths.sum + lengths.length * gap : Nat) ≤ i32Max) :
    tracksEnd gap origin lengths = origin + (lengths.sum + lengths.length * gap : Nat) := by
  induction lengths generalizing origin with
  | nil => simp [tracksEnd]
  | cons length lengths ih =>
    rw [sum_cons, length_cons, Nat.succ_mul] at hextent hhigh ⊢
    grind -linarith [addOffset_eq, tracksEnd]

/-- How the offset shows a column: inside the view when it fits, at its left end otherwise. -/
def Shows (left right offset : Int) (r : Rect) : Prop :=
  if r.width ≤ right - left then left ≤ r.x + offset ∧ r.x + r.width + offset ≤ right else r.x + offset = left

/-- Revealing a column of the content is never undone by the bounds of the offset, and has nothing to do again. -/
theorem revealOffset_spec {left right content offset : Int} (hright : r.right = r.x + r.width) (hleft : left ≤ r.x)
    (hcontent : r.x + r.width ≤ content) (hlow : min (right - content) 0 ≤ offset) (hhigh : offset ≤ 0) :
    (min (right - content) 0 ≤ revealOffset left right offset r ∧ revealOffset left right offset r ≤ 0) ∧
      Shows left right (revealOffset left right offset r) r ∧
      revealOffset left right (revealOffset left right offset r) r = revealOffset left right offset r := by
  grind +splitImp +splitIndPred [revealOffset, Shows]

/-- The columns of a list of items that stays in range. -/
structure Content (area : Rect) (pad content : Nat) (base : List Rect) : Prop where
  edges : Represented area.horizontal
  room : pad * 2 ≤ area.width
  width : content ≤ i32Max
  columns : ∀ r ∈ base, r.right = r.x + r.width ∧ viewLeft area pad ≤ r.x ∧ r.x + r.width ≤ area.x + content - pad

theorem view_eq {pad : Nat} (harea : Represented area.horizontal) (hpad : pad * 2 ≤ area.width) :
    viewLeft area pad = area.x + pad ∧ viewRight area pad = area.x + area.width - pad := by
  obtain ⟨hlow, hhigh, hextent⟩ := harea
  simp only [Rect.horizontal, Span.stop] at hlow hhigh hextent
  refine ⟨addOffset_eq hlow (by omega) (by omega), ?_⟩
  have hright : area.right = area.x + area.width := addOffset_eq hlow hextent hhigh
  grind [viewRight, toI32, subI32, clampI32_of_mem]

theorem updateViewOffset_spec {pad content : Nat} {base : List Rect} (h : Content area pad content base)
    (focused : Option Nat) :
    (minimumOffset area pad content ≤ (updateViewOffset state area pad content base focused).horizontalOffset ∧
      (updateViewOffset state area pad content base focused).horizontalOffset ≤ 0) ∧
    (∀ i r, focused = some i → base[i]? = some r → Shows (viewLeft area pad) (viewRight area pad)
      (updateViewOffset state area pad content base focused).horizontalOffset r) ∧
    updateViewOffset (updateViewOffset state area pad content base focused) area pad content base focused =
      updateViewOffset state area pad content base focused := by
  obtain ⟨harea, hpad, hwidth, hcolumns⟩ := h
  obtain ⟨hleft, hright⟩ := view_eq harea hpad
  simp only [updateViewOffset, minimumOffset]
  by_cases hfits : content ≤ area.width
  · grind +splitImp +splitIndPred [Shows]
  have hclamp : ∀ {o : Int}, min (viewRight area pad - (area.x + content - pad)) 0 ≤ o → o ≤ 0 →
      clampI32 (max (min (viewRight area pad - (area.x + content - pad)) 0) (min o 0)) = o := by
    intro o hlow hhigh
    rw [min_eq_left hhigh, max_eq_right hlow]
    refine clampI32_of_mem (le_trans ?_ hlow) (hhigh.trans (by decide))
    simp only [i32Max, i32Min] at *
    omega
  generalize hstart : max (min (viewRight area pad - (area.x + content - pad)) 0) (min state.horizontalOffset 0) = start
  have hlow : min (viewRight area pad - (area.x + content - pad)) 0 ≤ start := hstart ▸ le_max_left _ _
  have hhigh : start ≤ 0 := by omega
  cases hcolumn : focused.bind (base[·]?) with
  | none => grind +splitImp +splitIndPred
  | some r =>
    obtain ⟨i, hi, hr⟩ := Option.bind_eq_some_iff.mp hcolumn
    obtain ⟨hedge, hx, hstop⟩ := hcolumns r (mem_of_getElem? hr)
    obtain ⟨⟨hlow', hhigh'⟩, hshows, hagain⟩ := revealOffset_spec hedge hx hstop hlow hhigh
    grind -linarith +splitImp +splitIndPred

def widthsOf (options : LayoutOptions) (area : Rect) (items : List LayoutItem) : List Nat :=
  items.map fun item => (columnSize options area item).width

theorem baseColumns_horizontal (options : LayoutOptions) (area : Rect) (items : List LayoutItem) :
    (baseColumns options area items).map Rect.horizontal =
      tracks options.gap (addOffset area.x (padding options area)) (widthsOf options area items) := by
  have hzip : ∀ (spans : List Span) (sizes : List Size), spans.length = sizes.length →
      (List.zipWith (column options area) spans sizes).map Rect.horizontal = spans := by
    intro spans sizes hlen
    induction spans generalizing sizes with
    | nil => rfl
    | cons span spans ih =>
      cases sizes with
      | nil => cases hlen
      | cons size sizes => exact congrArg (span :: ·) (ih sizes (Nat.succ.inj hlen))
  have hwidths : (items.map (columnSize options area)).map (·.width) = widthsOf options area items := map_map
  grind [baseColumns, length_tracks]

theorem padding_room (options : LayoutOptions) (area : Rect) : padding options area * 2 ≤ area.width := by
  grind [padding]

variable {offset : Int}

theorem addOffset_padding {widths : List Nat} (h : InRange options area widths offset) :
    addOffset area.x (padding options area) = area.x + padding options area :=
  (view_eq h.edges (padding_room options area)).1

theorem contentWidth_eq (h : InRange options area (widthsOf options area items) offset) :
    contentWidth options area items = total options area (widthsOf options area items) := by
  grind -linarith +splitImp +splitIndPred [Rect.horizontal, total, tracksEnd_eq, padding, widthsOf, Nat.sub_eq_zero_of_le, Nat.min_le_left, contentWidth, addOffset_eq, distance, subI32_of_nonneg, toU32]

/-- The base columns are in order, and the content ends a gap behind the last of them. -/
theorem baseColumns_spec (hne : items ≠ []) (h : InRange options area (widthsOf options area items) offset) :
    Content area (padding options area) (contentWidth options area items) (baseColumns options area items) ∧
      (baseColumns options area items).Pairwise fun r s : Rect => r.horizontal.stop + options.gap ≤ s.x := by
  have hpad := addOffset_padding h
  have hwidth := contentWidth_eq h
  have hhorizontal := baseColumns_horizontal options area items
  obtain ⟨hedges, hcontent, hright, -⟩ := h
  have hlow := hedges.low
  simp only [Rect.horizontal] at hlow
  have hgap : padding options area ≤ options.gap := Nat.min_le_left _ _
  have htotal := hwidth.trans (total.eq_1 ..)
  rw [← hwidth] at hcontent hright
  have hroom : Room options.gap (area.x + padding options area)
      (area.x + contentWidth options area items - options.gap) (widthsOf options area items) :=
    ⟨by omega, by omega, by omega, by omega⟩
  rw [hpad] at hhorizontal
  obtain ⟨hinside, hpairwise⟩ := tracks_apart hroom
  rw [← hhorizontal] at hinside hpairwise
  refine ⟨⟨hedges, padding_room options area, hcontent, fun r hr => ?_⟩, (pairwise_map).mp hpairwise⟩
  obtain ⟨hx, hstop⟩ := hinside _ (mem_map_of_mem hr)
  simp only [Rect.horizontal, Span.stop] at hx hstop
  exact ⟨addOffset_eq (by omega) (by omega) (by omega), by rw [viewLeft, hpad]; exact hx, by omega⟩

/-- After arranging, the offset is between its minimum and zero, the focused column is shown, the columns are in order
with the gap between them, and arranging again changes nothing. -/
theorem arrangeScrolling_sound (options : LayoutOptions) (state : LayoutState) (area : Rect) (items : List LayoutItem)
    (focused : Option Nat) (h : InRange options area (widthsOf options area items)
      (arrangeScrolling options state area items focused).2.horizontalOffset) :
    (minimumOffset area (padding options area) (contentWidth options area items) ≤
        (arrangeScrolling options state area items focused).2.horizontalOffset ∧
      (arrangeScrolling options state area items focused).2.horizontalOffset ≤ 0) ∧
    (∀ i p, focused = some i → (arrangeScrolling options state area items focused).1.placements[i]? = some p →
      Shows (viewLeft area (padding options area)) (viewRight area (padding options area)) 0 p.geometry) ∧
    (arrangeScrolling options state area items focused).1.placements.Pairwise
      (fun p q : LayoutPlacement => p.geometry.horizontal.stop + options.gap ≤ q.geometry.x) ∧
    arrangeScrolling options (arrangeScrolling options state area items focused).2 area items focused =
      arrangeScrolling options state area items focused := by
  by_cases hnil : items = []
  · simp only [arrangeScrolling, if_pos hnil] at h ⊢
    exact ⟨⟨min_le_right _ _, le_rfl⟩, fun i p _ hp => by simp [LayoutSnapshot.empty] at hp, List.Pairwise.nil, trivial⟩
  obtain ⟨hcontent, hpairwise⟩ := baseColumns_spec hnil h
  have hpad := addOffset_padding h
  have hright := h.right
  have hleft := h.left
  rw [← contentWidth_eq h] at hright
  obtain ⟨hbounds, hshows, hagain⟩ := @updateViewOffset_spec state _ _ _ _ hcontent focused
  simp only [arrangeScrolling, if_neg hnil] at hleft ⊢
  rw [hagain]
  generalize updateViewOffset state area (padding options area) (contentWidth options area items)
    (baseColumns options area items) focused = next at *
  have hplaced : ∀ r ∈ baseColumns options area items, addI32 r.x next.horizontalOffset = r.x + next.horizontalOffset := by
    intro r hr
    obtain ⟨-, hx, hstop⟩ := hcontent.columns r hr
    rw [viewLeft, hpad] at hx
    exact clampI32_of_mem (by omega) (by omega)
  refine ⟨hbounds, fun i p hi hp => ?_, (pairwise_map).mpr ?_, rfl⟩
  · rw [getElem?_map, Option.map_eq_some_iff] at hp
    obtain ⟨r, hr, rfl⟩ := hp
    have hshow := hshows i r hi hr
    simp only [Shows, LayoutPlacement.new, hplaced r (mem_of_getElem? hr)] at hshow ⊢
    split_ifs at hshow ⊢ <;> omega
  · refine hpairwise.imp_of_mem fun {r s} hr hs hle => ?_
    simp only [LayoutPlacement.new, hplaced r hr, hplaced s hs, Rect.horizontal, Span.stop] at hle ⊢
    omega

theorem arrangeScrolling_sound_three : arrangeScrolling ⟨8, .proportion 1 2, .proportion 11 20⟩ ⟨-46⟩ ⟨0, 0, 100, 80⟩
        (List.replicate 3 ⟨⟨⟨1, 1⟩, none, none⟩, none⟩) (some 2) =
      arrangeScrolling ⟨8, .proportion 1 2, .proportion 11 20⟩ ⟨0⟩ ⟨0, 0, 100, 80⟩
        (List.replicate 3 ⟨⟨⟨1, 1⟩, none, none⟩, none⟩) (some 2) :=
  (arrangeScrolling_sound ⟨8, .proportion 1 2, .proportion 11 20⟩ ⟨0⟩ ⟨0, 0, 100, 80⟩
    (List.replicate 3 ⟨⟨⟨1, 1⟩, none, none⟩, none⟩) (some 2)
    ⟨⟨by decide, by decide, by decide⟩, by decide, by decide, by decide⟩).2.2.2

end View

end TensorDE.Wm.Layout
