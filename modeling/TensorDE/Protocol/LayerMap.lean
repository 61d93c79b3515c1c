import TensorDE.Protocol.Positioner

set_option linter.dupNamespace false

/-! Where the layer surfaces of an output are placed, and what they leave of it. -/

namespace TensorDE.Protocol.Layers

open Saturating List

inductive Edge where
  | top | bottom | left | right
deriving DecidableEq, Repr

structure Anchor where
  top : Bool
  bottom : Bool
  left : Bool
  right : Bool
deriving DecidableEq, Repr

namespace Anchor

variable (a : Anchor)

def count : Nat := a.top.toNat + a.bottom.toNat + a.left.toNat + a.right.toNat

def complement : Anchor := ⟨!a.top, !a.bottom, !a.left, !a.right⟩

def single : Option Edge :=
  if a.top then some .top
  else if a.bottom then some .bottom
  else if a.left then some .left
  else if a.right then some .right
  else none

end Anchor

inductive ExclusiveZone where
  | exclusive (amount : Nat)
  | neutral
  | dontCare
deriving DecidableEq, Repr

structure Margins where
  top : Int
  right : Int
  bottom : Int
  left : Int
deriving DecidableEq, Repr

def Margins.edge (m : Margins) : Edge → Int
  | .top => m.top
  | .bottom => m.bottom
  | .left => m.left
  | .right => m.right

structure LayerSurfaceState where
  size : Size
  anchor : Anchor
  exclusiveZone : ExclusiveZone
  exclusiveEdge : Option Edge
  margin : Margins
deriving DecidableEq, Repr

def Edge.opposite : Edge → Edge
  | .top => .bottom
  | .bottom => .top
  | .left => .right
  | .right => .left

def impliedExclusiveEdgeForAnchor (anchor : Anchor) : Option Edge :=
  match anchor.count with
  | 1 => anchor.single
  | 3 => anchor.complement.single.map Edge.opposite
  | _ => none

namespace LayerSurfaceState

variable (s : LayerSurfaceState)

def effectiveExclusiveEdge : Option Edge :=
  s.exclusiveEdge.or (impliedExclusiveEdgeForAnchor s.anchor)

def effectiveExclusiveZone : ExclusiveZone :=
  match s.exclusiveZone with
  | .exclusive amount => if s.effectiveExclusiveEdge = none then .neutral else .exclusive amount
  | zone => zone

def isExclusive : Bool :=
  match s.effectiveExclusiveZone with
  | .exclusive _ => true
  | _ => false

end LayerSurfaceState

/-! ### One axis -/

/-- What a surface says about one axis. -/
structure AxisPart where
  atStart : Bool
  atEnd : Bool
  marginStart : Int
  marginEnd : Int
  size : Nat

namespace AxisPart

variable (p : AxisPart)

def sourceLength (length : Int) : Int :=
  if p.atEnd then subI32 (if p.atStart then subI32 length p.marginStart else length) p.marginEnd
  else if p.atStart then subI32 length p.marginStart
  else length

def configuredLength (source : Int) : Int :=
  if p.atStart && p.atEnd then source
  else if min (p.size : Int) source = 0 then source.tdiv 2
  else min (p.size : Int) source

def location (start source length : Int) : Int :=
  if p.atStart then addI32 start p.marginStart
  else if p.atEnd then addI32 start (subI32 source length)
  else addI32 start (source.tdiv 2 - length.tdiv 2)

end AxisPart

namespace LayerSurfaceState

variable (s : LayerSurfaceState)

def horizontal : AxisPart :=
  ⟨s.anchor.left, s.anchor.right, s.margin.left, s.margin.right, s.size.width⟩

def vertical : AxisPart :=
  ⟨s.anchor.top, s.anchor.bottom, s.margin.top, s.margin.bottom, s.size.height⟩

end LayerSurfaceState

/-! ### Arranging -/

/-- A rectangle of which the computation has not shown yet that its lengths are not negative. -/
structure Zone where
  x : Int
  y : Int
  w : Int
  h : Int
deriving DecidableEq, Repr

variable (output : Size)

def Zone.full : Zone := ⟨0, 0, output.width, output.height⟩

def asI32 (amount : Nat) : Int := if (amount : Int) ≤ i32Max then amount else amount - 2 ^ 32

variable (zone : Zone)

def reserveEdge (amount : Nat) (margin : Margins) : Edge → Zone
  | .top =>
    { zone with
      y := addI32 zone.y (addI32 (asI32 amount) margin.top)
      h := subI32 zone.h (addI32 (asI32 amount) margin.top) }
  | .bottom => { zone with h := subI32 zone.h (addI32 (asI32 amount) margin.bottom) }
  | .left =>
    { zone with
      x := addI32 zone.x (addI32 (asI32 amount) margin.left)
      w := subI32 zone.w (addI32 (asI32 amount) margin.left) }
  | .right => { zone with w := subI32 zone.w (addI32 (asI32 amount) margin.right) }

def reserve (s : LayerSurfaceState) : Zone :=
  match s.exclusiveZone with
  | .exclusive amount =>
    match s.effectiveExclusiveEdge with
    | some edge => reserveEdge zone amount s.margin edge
    | none => zone
  | _ => zone

def source (zone : Zone) (s : LayerSurfaceState) : Zone :=
  match s.exclusiveZone with
  | .dontCare => Zone.full output
  | _ => zone

def place (zone : Zone) (s : LayerSurfaceState) : Rect where
  x := s.horizontal.location (source output zone s).x (s.horizontal.sourceLength (source output zone s).w)
    (s.horizontal.configuredLength (s.horizontal.sourceLength (source output zone s).w))
  y := s.vertical.location (source output zone s).y (s.vertical.sourceLength (source output zone s).h)
    (s.vertical.configuredLength (s.vertical.sourceLength (source output zone s).h))
  width := (s.horizontal.configuredLength (s.horizontal.sourceLength (source output zone s).w)).toNat
  height := (s.vertical.configuredLength (s.vertical.sourceLength (source output zone s).h)).toNat

structure LayerEntry where
  state : LayerSurfaceState
  location : Int × Int
  pendingServerSize : Option Size
  lastSentSize : Option Size
  closed : Bool
  configureReady : Bool
  initialConfigureSent : Bool
deriving DecidableEq, Repr

namespace LayerEntry

variable (e : LayerEntry)

def setPendingServerSize (size : Size) : Bool × LayerEntry :=
  (e.pendingServerSize.or e.lastSentSize ≠ some size, { e with pendingServerSize := some size })

def sendPendingConfigure : LayerEntry :=
  if e.closed || !e.configureReady then e
  else if e.initialConfigureSent && e.lastSentSize = some ((e.pendingServerSize.or e.lastSentSize).getD ⟨0, 0⟩) then
    { e with pendingServerSize := none }
  else
    { e with
      pendingServerSize := none
      initialConfigureSent := true
      lastSentSize := some ((e.pendingServerSize.or e.lastSentSize).getD ⟨0, 0⟩) }

def configure (size : Size) : LayerEntry :=
  if (e.setPendingServerSize size).1 && e.initialConfigureSent then (e.setPendingServerSize size).2.sendPendingConfigure
  else (e.setPendingServerSize size).2

/-- The entry with its new place, and whether that is a change. -/
def settle (rect : Rect) : Bool × LayerEntry :=
  ((e.setPendingServerSize rect.size).1 || e.location ≠ (rect.x, rect.y),
    { e.configure rect.size with location := (rect.x, rect.y) })

/-- The size that the client has been told of, or is about to be. -/
def configuredSize : Size := (e.pendingServerSize.or e.lastSentSize).getD ⟨0, 0⟩

def rect : Rect := ⟨e.location.1, e.location.2, e.configuredSize.width, e.configuredSize.height⟩

end LayerEntry

def arrangePass (output : Size) (exclusivePass : Bool) : Zone → List LayerEntry → Zone × Bool × List LayerEntry
  | zone, [] => (zone, false, [])
  | zone, e :: entries =>
    if e.state.isExclusive = exclusivePass then
      let rest := arrangePass output exclusivePass (reserve zone e.state) entries
      (rest.1, (e.settle (place output zone e.state)).1 || rest.2.1, (e.settle (place output zone e.state)).2 :: rest.2.2)
    else
      let rest := arrangePass output exclusivePass zone entries
      (rest.1, rest.2.1, e :: rest.2.2)

structure LayerMap where
  output : Size
  layers : List LayerEntry
  zone : Rect

def LayerMap.arrange (m : LayerMap) : Bool × LayerMap :=
  let first := arrangePass m.output true (Zone.full m.output) m.layers
  let second := arrangePass m.output false first.1 first.2.2
  (first.2.1 || second.2.1,
    { m with
      layers := second.2.2
      zone := ⟨second.1.x, second.1.y, second.1.w.toNat, second.1.h.toNat⟩ })

/-! ### What the surfaces ask for -/

namespace AxisPart

/-- The margins that count: those of the sides a surface is anchored to. -/
def margins (p : AxisPart) : Int := (if p.atStart then p.marginStart else 0) + (if p.atEnd then p.marginEnd else 0)

variable {p : AxisPart} {start length : Int}

theorem sourceLength_eq (hmax : length ≤ i32Max) (hmarginStart : 0 ≤ p.marginStart) (hmarginEnd : 0 ≤ p.marginEnd)
    (hfit : p.margins ≤ length) : p.sourceLength length = length - p.margins := by
  grind [sourceLength, margins, subI32, clampI32, i32Min]

theorem configuredLength_le {source : Int} (hsource : 0 ≤ source) :
    0 ≤ p.configuredLength source ∧ p.configuredLength source ≤ source := by
  grind [configuredLength]

theorem location_inside (hstart : 0 ≤ start) (hmax : start + length ≤ i32Max) (hmarginStart : 0 ≤ p.marginStart)
    (hmarginEnd : 0 ≤ p.marginEnd) (hfit : p.margins ≤ length) {configured : Int} (hconfigured : 0 ≤ configured)
    (hle : configured ≤ length - p.margins) : start ≤ p.location start (length - p.margins) configured ∧
      p.location start (length - p.margins) configured + configured ≤ start + length := by
  grind [margins, location, addI32_of_nonneg, subI32_of_nonneg]

/-- What a surface takes of a stretch. -/
def span (p : AxisPart) (start length : Int) : Span :=
  ⟨p.location start (p.sourceLength length) (p.configuredLength (p.sourceLength length)),
    (p.configuredLength (p.sourceLength length)).toNat⟩

theorem span_inside (hstart : 0 ≤ start) (hmax : start + length ≤ i32Max) (hmarginStart : 0 ≤ p.marginStart)
    (hmarginEnd : 0 ≤ p.marginEnd) (hfit : p.margins ≤ length) : (p.span start length).Inside ⟨start, length.toNat⟩ := by
  rw [span, sourceLength_eq (by omega) hmarginStart hmarginEnd hfit]
  grind [configuredLength_le, location_inside, Span.stop, Span.Inside]

end AxisPart

namespace LayerSurfaceState

def reserves (s : LayerSurfaceState) (edge : Edge) : Int :=
  match s.exclusiveZone with
  | .exclusive amount => if s.effectiveExclusiveEdge = some edge then amount + s.margin.edge edge else 0
  | _ => 0

end LayerSurfaceState

def reserved (edge : Edge) (states : List LayerSurfaceState) : Int := (states.map fun s => s.reserves edge).sum

def remaining (states : List LayerSurfaceState) : Rect :=
  ⟨reserved .left states, reserved .top states, (output.width - reserved .left states - reserved .right states).toNat,
    (output.height - reserved .top states - reserved .bottom states).toNat⟩

def placingOrder {α : Type} (state : α → LayerSurfaceState) (entries : List α) : List α :=
  (entries.filter fun e => (state e).isExclusive) ++ entries.filter fun e => !(state e).isExclusive

/-- No margin is negative, and what is reserved fits into the output. -/
structure Within (output : Size) (states : List LayerSurfaceState) : Prop where
  width : (output.width : Int) ≤ i32Max
  height : (output.height : Int) ≤ i32Max
  margins : ∀ s ∈ states, ∀ edge, 0 ≤ s.margin.edge edge
  horizontal : reserved .left states + reserved .right states ≤ output.width
  vertical : reserved .top states + reserved .bottom states ≤ output.height

/-- The margins of a surface fit too: into what the surfaces before it leave, or into the output if it does not mind the
zone. -/
structure Fits (output : Size) (states : List LayerSurfaceState) : Prop where
  within : Within output states
  placeable : ∀ before (s : LayerSurfaceState) after, placingOrder id states = before ++ s :: after → s.exclusiveZone ≠ .dontCare →
    s.horizontal.margins + reserved .left before + reserved .right before ≤ output.width ∧
      s.vertical.margins + reserved .top before + reserved .bottom before ≤ output.height
  careless : ∀ s ∈ states, s.exclusiveZone = .dontCare →
    s.horizontal.margins ≤ output.width ∧ s.vertical.margins ≤ output.height

/-! ### The passes one after the other -/

theorem settle_state (e : LayerEntry) (rect : Rect) : (e.settle rect).2.state = e.state := by
  change (e.configure rect.size).state = e.state
  rw [LayerEntry.configure, LayerEntry.sendPendingConfigure]
  split_ifs <;> rfl

theorem configure_size (e : LayerEntry) (size : Size) :
    (e.configure size).pendingServerSize.or (e.configure size).lastSentSize = some size := by
  rw [LayerEntry.configure]
  grind [LayerEntry.sendPendingConfigure, LayerEntry.setPendingServerSize]

theorem settle_rect (e : LayerEntry) (rect : Rect) : (e.settle rect).2.rect = rect := by
  have hsize : (e.settle rect).2.configuredSize = rect.size := by
    change ((e.configure rect.size).pendingServerSize.or (e.configure rect.size).lastSentSize).getD _ = _
    rw [configure_size]
    rfl
  rw [LayerEntry.rect, hsize]
  rfl

theorem settle_again (e : LayerEntry) (rect : Rect) : ((e.settle rect).2.settle rect).1 = false := by
  grind [configure_size, LayerEntry.settle, LayerEntry.setPendingServerSize]

/-- The entries in the order they are placed in, with their new places, and whether one of them is new. -/
def placedFrom (output : Size) : Zone → List LayerEntry → List LayerEntry
  | _, [] => []
  | zone, e :: entries => (e.settle (place output zone e.state)).2 :: placedFrom output (reserve zone e.state) entries

def changedFrom (output : Size) : Zone → List LayerEntry → Bool
  | _, [] => false
  | zone, e :: entries => (e.settle (place output zone e.state)).1 || changedFrom output (reserve zone e.state) entries

def zoneAfter (states : List LayerSurfaceState) : Zone := states.foldl reserve zone

section Passes

variable {output : Size} {zone : Zone} {entries : List LayerEntry}

theorem placedFrom_state : (placedFrom output zone entries).map LayerEntry.state = entries.map LayerEntry.state := by
  induction entries generalizing zone with
  | nil => rfl
  | cons e entries ih => rw [placedFrom, map_cons, map_cons, settle_state, ih]

theorem placedFrom_append (rest : List LayerEntry) : placedFrom output zone (entries ++ rest) =
    placedFrom output zone entries ++ placedFrom output (zoneAfter zone (entries.map LayerEntry.state)) rest := by
  induction entries generalizing zone with
  | nil => rfl
  | cons e entries ih =>
    rw [cons_append, placedFrom, placedFrom, ih]
    rfl

theorem placedFrom_rect {before after : List LayerEntry} {e : LayerEntry}
    (h : placedFrom output zone entries = before ++ e :: after) :
    e.rect = place output (zoneAfter zone (before.map LayerEntry.state)) e.state := by
  induction entries generalizing zone before with
  | nil =>
    rw [placedFrom] at h
    simp at h
  | cons first entries ih =>
    rw [placedFrom] at h
    cases before with
    | nil =>
      obtain ⟨rfl, -⟩ := h
      rw [settle_rect, settle_state]
      rfl
    | cons b before =>
      rw [cons_append, List.cons.injEq] at h
      obtain ⟨rfl, hrest⟩ := h
      rw [ih hrest, map_cons, settle_state]
      rfl

theorem changedFrom_placedFrom : changedFrom output zone (placedFrom output zone entries) = false := by
  induction entries generalizing zone with
  | nil => rfl
  | cons e entries ih => rw [placedFrom, changedFrom, settle_state, settle_again, ih, Bool.or_self]

def inPass (pass : Bool) (e : LayerEntry) : Bool := e.state.isExclusive == pass

structure Passed (output : Size) (pass : Bool) (zone : Zone) (entries : List LayerEntry)
    (result : Zone × Bool × List LayerEntry) : Prop where
  remains : result.1 = zoneAfter zone ((entries.filter (inPass pass)).map LayerEntry.state)
  changed : result.2.1 = changedFrom output zone (entries.filter (inPass pass))
  placed : result.2.2.filter (inPass pass) = placedFrom output zone (entries.filter (inPass pass))
  others : result.2.2.filter (inPass !pass) = entries.filter (inPass !pass)
  states : result.2.2.map LayerEntry.state = entries.map LayerEntry.state

theorem arrangePass_passed (output : Size) (pass : Bool) (zone : Zone) (entries : List LayerEntry) :
    Passed output pass zone entries (arrangePass output pass zone entries) := by
  induction entries generalizing zone with
  | nil => exact ⟨rfl, rfl, rfl, rfl, rfl⟩
  | cons e entries ih =>
    rw [arrangePass]
    by_cases hpass : e.state.isExclusive = pass
    · have hrest := ih (reserve zone e.state)
      have hin : inPass pass e = true := beq_iff_eq.mpr hpass
      have hout : ¬ inPass (!pass) e = true := by
        rw [inPass, hpass]
        cases pass <;> decide
      have hsame : ∀ b, inPass b (e.settle (place output zone e.state)).2 = inPass b e := by
        intro b
        rw [inPass, settle_state, inPass]
      rw [if_pos hpass]
      dsimp only
      constructor
      · rw [filter_cons_of_pos hin]
        exact hrest.remains
      · rw [filter_cons_of_pos hin, changedFrom, hrest.changed]
      · grind [placedFrom, hrest.placed]
      · grind [hrest.others]
      · rw [map_cons, map_cons, settle_state, hrest.states]
    · have hrest := ih zone
      have hin : ¬ inPass pass e = true := fun h => hpass (beq_iff_eq.mp h)
      rw [if_neg hpass]
      constructor
      · rw [filter_cons_of_neg hin]
        exact hrest.remains
      · rw [filter_cons_of_neg hin]
        exact hrest.changed
      · grind [hrest.placed]
      · grind [hrest.others]
      · rw [map_cons, map_cons, hrest.states]

theorem placingOrder_eq (entries : List LayerEntry) :
    placingOrder LayerEntry.state entries = entries.filter (inPass true) ++ entries.filter (inPass false) := by
  have htrue : (fun e : LayerEntry => e.state.isExclusive) = inPass true := by
    funext e
    rw [inPass]
    cases e.state.isExclusive <;> rfl
  have hfalse : (fun e : LayerEntry => !e.state.isExclusive) = inPass false := by
    funext e
    rw [inPass]
    cases e.state.isExclusive <;> rfl
  rw [placingOrder, htrue, hfalse]

theorem reserve_of_not_exclusive {s : LayerSurfaceState} (h : s.isExclusive = false) (zone : Zone) : reserve zone s = zone := by
  grind [LayerSurfaceState.isExclusive, LayerSurfaceState.effectiveExclusiveZone, reserve]

theorem zoneAfter_second (zone : Zone) (entries : List LayerEntry) :
    zoneAfter zone ((entries.filter (inPass false)).map LayerEntry.state) = zone := by
  have hnone : ∀ e ∈ entries.filter (inPass false), e.state.isExclusive = false := by
    intro e he
    exact beq_iff_eq.mp (mem_filter.mp he).2
  generalize entries.filter (inPass false) = rest at *
  induction rest with
  | nil => rfl
  | cons e rest ih => grind -linarith [zoneAfter, reserve_of_not_exclusive]

end Passes

/-! ### A whole arrangement -/

namespace LayerMap

/-- The zone that all surfaces together leave. -/
def left (m : LayerMap) : Zone :=
  zoneAfter (Zone.full m.output) ((placingOrder LayerEntry.state m.layers).map LayerEntry.state)

structure Arrangement (m : LayerMap) (result : Bool × LayerMap) : Prop where
  output : result.2.output = m.output
  states : result.2.layers.map LayerEntry.state = m.layers.map LayerEntry.state
  zone : result.2.zone = ⟨m.left.x, m.left.y, m.left.w.toNat, m.left.h.toNat⟩
  order : placingOrder LayerEntry.state result.2.layers =
    placedFrom m.output (Zone.full m.output) (placingOrder LayerEntry.state m.layers)
  changed : result.1 = changedFrom m.output (Zone.full m.output) (placingOrder LayerEntry.state m.layers)

theorem changedFrom_append {output : Size} {zone : Zone} (entries rest : List LayerEntry) :
    changedFrom output zone (entries ++ rest) =
      (changedFrom output zone entries || changedFrom output (zoneAfter zone (entries.map LayerEntry.state)) rest) := by
  induction entries generalizing zone with
  | nil => rfl
  | cons e entries ih =>
    rw [cons_append, changedFrom, changedFrom, ih, Bool.or_assoc]
    rfl

theorem arrange_arrangement (m : LayerMap) : Arrangement m m.arrange := by
  have first := arrangePass_passed m.output true (Zone.full m.output) m.layers
  have second := arrangePass_passed m.output false (arrangePass m.output true (Zone.full m.output) m.layers).1
    (arrangePass m.output true (Zone.full m.output) m.layers).2.2
  rw [LayerMap.arrange]
  generalize arrangePass m.output true (Zone.full m.output) m.layers = one at *
  generalize arrangePass m.output false one.1 one.2.2 = two at *
  have hothers : one.2.2.filter (inPass false) = m.layers.filter (inPass false) := first.others
  have hzone : two.1 = m.left := by
    rw [second.remains, zoneAfter_second, first.remains, LayerMap.left, placingOrder_eq, map_append, zoneAfter, zoneAfter,
      foldl_append]
    exact (zoneAfter_second _ _).symm
  constructor
  · rfl
  · exact second.states.trans first.states
  · grind
  · grind [second.others, placingOrder_eq, placedFrom_append, first.placed, second.placed, first.remains]
  grind [placingOrder_eq, changedFrom_append, first.changed, second.changed, first.remains]

theorem arrange_again (m : LayerMap) : m.arrange.2.arrange.1 = false := by
  have h := m.arrange_arrangement
  rw [m.arrange.2.arrange_arrangement.changed, h.order, h.output]
  exact changedFrom_placedFrom

end LayerMap

/-! ### The zone is the output without the strips -/

section Strips

variable {output : Size} {states : List LayerSurfaceState}

theorem reserved_append (edge : Edge) (states rest : List LayerSurfaceState) :
    reserved edge (states ++ rest) = reserved edge states + reserved edge rest := by
  rw [reserved, map_append, sum_append]
  rfl

theorem reserved_single (edge : Edge) (s : LayerSurfaceState) : reserved edge [s] = s.reserves edge := by
  rw [reserved, map_singleton, sum_singleton]

variable {edge : Edge} {rest : List LayerSurfaceState}

theorem reserved_perm (h : states.Perm rest) :
    reserved edge states = reserved edge rest := (h.map _).sum_eq

variable {s : LayerSurfaceState}

theorem reserves_nonneg (h : ∀ edge, 0 ≤ s.margin.edge edge) (edge : Edge) : 0 ≤ s.reserves edge := by
  grind [LayerSurfaceState.reserves]

theorem reserved_nonneg (h : ∀ s ∈ states, ∀ edge, 0 ≤ s.margin.edge edge) (edge : Edge) : 0 ≤ reserved edge states := by
  apply sum_nonneg
  intro n hn
  obtain ⟨s, hs, rfl⟩ := mem_map.mp hn
  exact reserves_nonneg (h s hs) edge

/-- The zone while all amounts and margins are within range. -/
def exactZone (output : Size) (states : List LayerSurfaceState) : Zone :=
  ⟨reserved .left states, reserved .top states, output.width - reserved .left states - reserved .right states,
    output.height - reserved .top states - reserved .bottom states⟩

theorem Within.left (h : Within output (states ++ rest)) : Within output states := by
  have hmargins : ∀ s ∈ rest, ∀ edge, 0 ≤ s.margin.edge edge := fun s hs => h.margins s (mem_append_right _ hs)
  have hhorizontal := h.horizontal
  have hvertical := h.vertical
  simp only [reserved_append] at hhorizontal hvertical
  have hnonneg := reserved_nonneg hmargins
  refine ⟨h.width, h.height, fun s hs => h.margins s (mem_append_left _ hs), ?_, ?_⟩
  · grind
  grind

variable {amount : Nat}

theorem reserves_of_edge (hzone : s.exclusiveZone = .exclusive amount)
    (hedge : s.effectiveExclusiveEdge = some edge) (other : Edge) :
    s.reserves other = if other = edge then amount + s.margin.edge edge else 0 := by
  grind [LayerSurfaceState.reserves]

section

variable (h : Within output (states ++ [s]))
include h

theorem Within.reserves_le (edge : Edge) : s.reserves edge ≤ i32Max := by
  have hnonneg := reserved_nonneg h.left.margins
  have hreserves := reserves_nonneg (h.margins s (mem_append_right _ (mem_singleton_self s)))
  have hhorizontal := h.horizontal
  have hvertical := h.vertical
  have hwidth := h.width
  have hheight := h.height
  simp only [reserved_append, reserved_single] at hhorizontal hvertical
  have hl := hnonneg .left
  have hr := hnonneg .right
  have ht := hnonneg .top
  have hb := hnonneg .bottom
  have hl' := hreserves .left
  have hr' := hreserves .right
  have ht' := hreserves .top
  have hb' := hreserves .bottom
  cases edge <;> omega

/-- With range to spare the saturating arithmetic of a reservation is exact. -/
theorem reserveEdge_exact (hzone : s.exclusiveZone = .exclusive amount) (hedge : s.effectiveExclusiveEdge = some edge) :
    reserveEdge (exactZone output states) amount s.margin edge = exactZone output (states ++ [s]) := by
  have hnonneg := reserved_nonneg h.left.margins
  have hmargin := h.margins s (mem_append_right _ (mem_singleton_self s)) edge
  have hreserves := reserves_of_edge hzone hedge
  have hhorizontal := h.horizontal
  have hvertical := h.vertical
  have hwidth := h.width
  have hheight := h.height
  have hfits := h.reserves_le edge
  rw [hreserves, if_pos rfl] at hfits
  have hamount : addI32 (asI32 amount) (s.margin.edge edge) = amount + s.margin.edge edge := by
    rw [asI32, if_pos (by omega), addI32_of_nonneg (by omega) hfits]
  simp only [exactZone, reserved_append, reserved_single] at hhorizontal hvertical ⊢
  cases edge with
  | top =>
    change Zone.mk _ (addI32 _ (addI32 _ (s.margin.edge .top))) _ (subI32 _ (addI32 _ (s.margin.edge .top))) = _
    grind [addI32_of_nonneg, subI32_of_nonneg]
  | bottom =>
    change Zone.mk _ _ _ (subI32 _ (addI32 _ (s.margin.edge .bottom))) = _
    grind [subI32_of_nonneg]
  | left =>
    change Zone.mk (addI32 _ (addI32 _ (s.margin.edge .left))) _ (subI32 _ (addI32 _ (s.margin.edge .left))) _ = _
    grind [addI32_of_nonneg, subI32_of_nonneg]
  | right =>
    change Zone.mk _ _ (subI32 _ (addI32 _ (s.margin.edge .right))) _ = _
    grind [subI32_of_nonneg]

theorem reserve_exact : reserve (exactZone output states) s = exactZone output (states ++ [s]) := by
  have hidle : (∀ edge, s.reserves edge = 0) → exactZone output states = exactZone output (states ++ [s]) := by
    intro hnone
    simp only [exactZone, reserved_append, reserved_single, hnone, add_zero]
  grind [reserve, reserveEdge_exact, LayerSurfaceState.reserves]

end

theorem zoneAfter_exact (h : Within output (states ++ rest)) :
    zoneAfter (exactZone output states) rest = exactZone output (states ++ rest) := by
  induction rest generalizing states with
  | nil =>
    rw [append_nil]
    rfl
  | cons s rest ih =>
    have hsplit : states ++ s :: rest = (states ++ [s]) ++ rest := append_cons _ _ _
    rw [hsplit] at h ⊢
    rw [zoneAfter, foldl_cons, reserve_exact h.left]
    exact ih h

theorem exactZone_nil : exactZone output [] = Zone.full output := by
  simp [exactZone, reserved, Zone.full]

def Inside (r s : Rect) : Prop := r.horizontal.Inside s.horizontal ∧ r.vertical.Inside s.vertical

def Overlaps (r s : Rect) : Prop := r.horizontal.Overlaps s.horizontal ∧ r.vertical.Overlaps s.vertical

def outputRect (output : Size) : Rect := ⟨0, 0, output.width, output.height⟩

section

variable (h : Within output states)
include h

theorem Within.remaining_stop : (remaining output states).horizontal.stop = output.width - reserved .right states ∧
      (remaining output states).vertical.stop = output.height - reserved .bottom states := by
  grind [h.horizontal, h.vertical, remaining, Rect.horizontal, Rect.vertical, Span.stop]

theorem Within.remaining_inside : Inside (remaining output states) (outputRect output) := by
  have hnonneg := reserved_nonneg h.margins
  have hl := hnonneg .left
  have ht := hnonneg .top
  obtain ⟨hright, hbottom⟩ := h.remaining_stop
  refine ⟨⟨hl, ?_⟩, ⟨ht, ?_⟩⟩
  · grind [outputRect, Rect.horizontal, Span.stop]
  grind [outputRect, Rect.vertical, Span.stop]

theorem place_remaining (hmargins : ∀ edge, 0 ≤ s.margin.edge edge) (hzone : s.exclusiveZone ≠ .dontCare)
    (hhorizontal : s.horizontal.margins + reserved .left states + reserved .right states ≤ output.width)
    (hvertical : s.vertical.margins + reserved .top states + reserved .bottom states ≤ output.height) :
    Inside (place output (exactZone output states) s) (remaining output states) := by
  have hsource : source output (exactZone output states) s = exactZone output states := by
    rw [source]
    split
    case h_1 hcare => exact absurd hcare hzone
    case h_2 => rfl
  have hnonneg := reserved_nonneg h.margins
  have hl := hnonneg .left
  have hr := hnonneg .right
  have ht := hnonneg .top
  have hb := hnonneg .bottom
  have hwidth := h.width
  have hheight := h.height
  constructor
  · change (s.horizontal.span (source output (exactZone output states) s).x (source output (exactZone output states) s).w).Inside _
    rw [hsource]
    exact AxisPart.span_inside hl (by simp only [exactZone]; omega) (hmargins .left) (hmargins .right)
      (by simp only [exactZone]; omega)
  · change (s.vertical.span (source output (exactZone output states) s).y (source output (exactZone output states) s).h).Inside _
    rw [hsource]
    exact AxisPart.span_inside ht (by simp only [exactZone]; omega) (hmargins .top) (hmargins .bottom)
      (by simp only [exactZone]; omega)

end

theorem place_output (hwidth : (output.width : Int) ≤ i32Max) (hheight : (output.height : Int) ≤ i32Max)
    (hmargins : ∀ edge, 0 ≤ s.margin.edge edge) (hzone : s.exclusiveZone = .dontCare)
    (hhorizontal : s.horizontal.margins ≤ output.width) (hvertical : s.vertical.margins ≤ output.height) (zone : Zone) :
    Inside (place output zone s) (outputRect output) := by
  have hsource : source output zone s = Zone.full output := by
    rw [source, hzone]
  constructor
  · change (s.horizontal.span (source output zone s).x (source output zone s).w).Inside _
    rw [hsource]
    exact AxisPart.span_inside le_rfl (by simp only [Zone.full]; omega) (hmargins .left) (hmargins .right) hhorizontal
  · change (s.vertical.span (source output zone s).y (source output zone s).h).Inside _
    rw [hsource]
    exact AxisPart.span_inside le_rfl (by simp only [Zone.full]; omega) (hmargins .top) (hmargins .bottom) hvertical

/-- The strip that a surface reserves at an edge after the surfaces before it: it goes across the whole output. -/
def strip (output : Size) (before : List LayerSurfaceState) (s : LayerSurfaceState) : Edge → Rect
  | .top => ⟨0, reserved .top before, output.width, (s.reserves .top).toNat⟩
  | .bottom => ⟨0, output.height - reserved .bottom before - s.reserves .bottom, output.width, (s.reserves .bottom).toNat⟩
  | .left => ⟨reserved .left before, 0, (s.reserves .left).toNat, output.height⟩
  | .right => ⟨output.width - reserved .right before - s.reserves .right, 0, (s.reserves .right).toNat, output.height⟩

/-- What is left when more surfaces have come does not meet the strips of the earlier ones. -/
theorem strip_apart (h : Within output (states ++ s :: rest))
    {rect : Rect} (hrect : Inside rect (remaining output (states ++ s :: rest))) (edge : Edge) :
    ¬ Overlaps rect (strip output states s edge) := by
  have hrest : ∀ edge, 0 ≤ reserved edge rest :=
    reserved_nonneg fun t ht => h.margins t (mem_append_right _ (mem_cons_of_mem _ ht))
  have hsplit : ∀ edge, reserved edge (states ++ s :: rest) = reserved edge states + s.reserves edge + reserved edge rest := by
    intro edge
    rw [← singleton_append, reserved_append, reserved_append, reserved_single, add_assoc]
  obtain ⟨hright, hbottom⟩ := h.remaining_stop
  obtain ⟨⟨hx, hx'⟩, hy, hy'⟩ := hrect
  rw [hright, hsplit] at hx'
  rw [hbottom, hsplit] at hy'
  change reserved .left (states ++ s :: rest) ≤ rect.x at hx
  change reserved .top (states ++ s :: rest) ≤ rect.y at hy
  rintro ⟨hover, hover'⟩
  rw [Span.overlaps_iff] at hover hover'
  have hr := hrest edge
  cases edge with
  | top => grind [strip, Rect.vertical, Span.stop]
  | bottom =>
    have hlt := hover'.2.1
    change output.height - reserved .bottom states - s.reserves .bottom < rect.vertical.stop at hlt
    omega
  | left => grind [strip, Rect.horizontal, Span.stop]
  | right =>
    have hlt := hover.2.1
    change output.width - reserved .right states - s.reserves .right < rect.horizontal.stop at hlt
    omega

end Strips

/-! ### The surfaces on the output -/

theorem placingOrder_map (entries : List LayerEntry) :
    (placingOrder LayerEntry.state entries).map LayerEntry.state = placingOrder id (entries.map LayerEntry.state) := by
  rw [placingOrder, placingOrder, map_append, filter_map, filter_map]
  rfl

theorem placingOrder_perm (entries : List LayerEntry) : (placingOrder LayerEntry.state entries).Perm entries :=
  filter_append_perm _ _

/-- Behind a surface of the second pass there are only others of it. -/
theorem placingOrder_after {entries before after : List LayerEntry} {e : LayerEntry}
    (h : placingOrder LayerEntry.state entries = before ++ e :: after) (he : e.state.isExclusive = false) :
    ∀ other ∈ e :: after, other.state.isExclusive = false := by
  have hsecond : ∀ other ∈ entries.filter fun e => !e.state.isExclusive, other.state.isExclusive = false := by
    simpa using (mem_filter.mp hother).2
  rcases append_eq_append_iff.mp h with ⟨middle, -, hmiddle⟩ | ⟨middle, hfirst, hmiddle⟩
  · grind
  · cases middle with
    | nil => grind
    | cons c middle =>
      have hmem : c ∈ entries.filter fun e => e.state.isExclusive := by
        rw [hfirst]
        exact mem_append_right _ mem_cons_self
      grind

theorem reserves_of_not_exclusive {s : LayerSurfaceState} (h : s.isExclusive = false) (edge : Edge) : s.reserves edge = 0 := by
  grind [LayerSurfaceState.isExclusive, LayerSurfaceState.effectiveExclusiveZone, LayerSurfaceState.reserves]

theorem reserved_of_not_exclusive {states : List LayerSurfaceState} (h : ∀ s ∈ states, s.isExclusive = false) (edge : Edge) :
    reserved edge states = 0 := by
  grind -linarith [reserved, sum_eq_zero, reserves_of_not_exclusive]

/-- The surfaces of an output as an arrangement leaves them. -/
structure Arranged (output : Size) (layers : List LayerEntry) (zone : Rect) : Prop where
  remains : zone = remaining output (layers.map LayerEntry.state)
  inside : Inside zone (outputRect output)
  neutral : ∀ e ∈ layers, e.state.effectiveExclusiveZone = .neutral → Inside e.rect zone
  dontCare : ∀ e ∈ layers, e.state.exclusiveZone = .dontCare → Inside e.rect (outputRect output)
  exclusive : ∀ before (t : LayerEntry) middle (e : LayerEntry) after, placingOrder LayerEntry.state layers = before ++ t :: (middle ++ e :: after) →
    e.state.exclusiveZone ≠ .dontCare →
      ∀ edge, ¬ Overlaps e.rect (strip output (before.map LayerEntry.state) t.state edge)

namespace LayerMap

variable {m : LayerMap}

theorem ordered_within (h : Fits m.output (m.layers.map LayerEntry.state)) :
    Within m.output ((placingOrder LayerEntry.state m.layers).map LayerEntry.state) := by
  have hperm := (placingOrder_perm m.layers).map LayerEntry.state
  have hwithin := h.within
  refine ⟨hwithin.width, hwithin.height, fun s hs => hwithin.margins s (hperm.mem_iff.mp hs), ?_, ?_⟩
  · grind [reserved_perm, hwithin.horizontal]
  grind [reserved_perm, hwithin.vertical]

theorem arranged_states (m : LayerMap) : (placingOrder LayerEntry.state m.arrange.2.layers).map LayerEntry.state =
    (placingOrder LayerEntry.state m.layers).map LayerEntry.state := by
  rw [m.arrange_arrangement.order, placedFrom_state]

variable {before after : List LayerEntry} {e : LayerEntry}

section

variable (h : Fits m.output (m.layers.map LayerEntry.state))
include h

theorem split_within (hsplit : placingOrder LayerEntry.state m.arrange.2.layers = before ++ e :: after) :
    placingOrder id (m.layers.map LayerEntry.state) =
        before.map LayerEntry.state ++ e.state :: after.map LayerEntry.state ∧
      Within m.output (before.map LayerEntry.state ++ e.state :: after.map LayerEntry.state) := by
  grind [m.arranged_states, placingOrder_map, ordered_within]

theorem entry_rect (hsplit : placingOrder LayerEntry.state m.arrange.2.layers = before ++ e :: after) :
    e.rect = place m.output (exactZone m.output (before.map LayerEntry.state)) e.state := by
  have hplaced := hsplit
  rw [m.arrange_arrangement.order] at hplaced
  have hbefore := (split_within h hsplit).2.left
  rw [placedFrom_rect hplaced, ← exactZone_nil, zoneAfter_exact hbefore, nil_append]

theorem entry_remaining (hsplit : placingOrder LayerEntry.state m.arrange.2.layers = before ++ e :: after) (he : e.state.exclusiveZone ≠ .dontCare) :
    Inside e.rect (remaining m.output (before.map LayerEntry.state)) := by
  obtain ⟨horder, hwithin⟩ := split_within h hsplit
  grind +splitImp +splitIndPred [entry_rect, place_remaining, hwithin.left]

theorem arrange_arranged : Arranged m.output m.arrange.2.layers m.arrange.2.zone := by
  have harrangement := m.arrange_arrangement
  have hordered := ordered_within h
  have hperm := placingOrder_perm m.arrange.2.layers
  have hzone : m.arrange.2.zone = remaining m.output (m.arrange.2.layers.map LayerEntry.state) := by
    have hleft : m.left = exactZone m.output ((placingOrder LayerEntry.state m.layers).map LayerEntry.state) := by
      rw [LayerMap.left, ← exactZone_nil]
      exact zoneAfter_exact hordered
    have hreserved : ∀ edge, reserved edge ((placingOrder LayerEntry.state m.layers).map LayerEntry.state) =
        reserved edge (m.arrange.2.layers.map LayerEntry.state) := by
      intro edge
      rw [← m.arranged_states]
      exact reserved_perm (hperm.map _)
    rw [harrangement.zone, hleft]
    simp only [exactZone, remaining, hreserved]
  have hwithin : Within m.output (m.arrange.2.layers.map LayerEntry.state) := by
    rw [harrangement.states]
    exact h.within
  constructor
  · exact hzone
  · rw [hzone]
    exact hwithin.remaining_inside
  · intro e he hneutral
    obtain ⟨before, after, hsplit⟩ := append_of_mem (hperm.mem_iff.mpr he)
    have hexclusive : e.state.isExclusive = false := by
      rw [LayerSurfaceState.isExclusive, hneutral]
    have hcare : e.state.exclusiveZone ≠ .dontCare := by
      intro hcare
      rw [LayerSurfaceState.effectiveExclusiveZone, hcare] at hneutral
      cases hneutral
    have hafter := placingOrder_after hsplit hexclusive
    have hreserved : ∀ edge, reserved edge (m.arrange.2.layers.map LayerEntry.state) =
        reserved edge (before.map LayerEntry.state) := by
      intro edge
      have hnone : reserved edge ((e :: after).map LayerEntry.state) = 0 := by
        apply reserved_of_not_exclusive
        intro s hs
        obtain ⟨other, hother, rfl⟩ := mem_map.mp hs
        exact hafter other hother
      grind [reserved_perm, reserved_append]
    have hremaining := entry_remaining h hsplit hcare
    grind [remaining]
  · intro e he hcare
    obtain ⟨before, after, hsplit⟩ := append_of_mem (hperm.mem_iff.mpr he)
    have hmem : e.state ∈ m.layers.map LayerEntry.state := by
      rw [← harrangement.states]
      exact mem_map_of_mem he
    obtain ⟨hhorizontal, hvertical⟩ := h.careless e.state hmem hcare
    rw [entry_rect h hsplit]
    exact place_output h.within.width h.within.height (h.within.margins e.state hmem) hcare hhorizontal hvertical _
  · intro before t middle e after hsplit hcare edge
    have hsplit' : placingOrder LayerEntry.state m.arrange.2.layers = (before ++ t :: middle) ++ e :: after := by
      rw [hsplit, append_assoc, cons_append]
    have hremaining := entry_remaining h hsplit' hcare
    have hbefore := (split_within h hsplit').2.left
    grind [strip_apart]

end

theorem arrange_respects_zones (m : LayerMap) (h : Fits m.output (m.layers.map LayerEntry.state)) :
    m.arrange.2.layers.map LayerEntry.state = m.layers.map LayerEntry.state ∧
      Arranged m.output m.arrange.2.layers m.arrange.2.zone ∧ m.arrange.2.arrange.1 = false :=
  ⟨m.arrange_arrangement.states, arrange_arranged h, m.arrange_again⟩

/-- A panel along the top of an output, and a surface in the middle of what it leaves. -/
def panelState : LayerSurfaceState := ⟨⟨0, 30⟩, ⟨true, false, true, true⟩, .exclusive 30, none, ⟨2, 0, 0, 0⟩⟩

def middleState : LayerSurfaceState := ⟨⟨20, 20⟩, ⟨false, false, false, false⟩, .neutral, none, ⟨0, 0, 0, 0⟩⟩

def fresh (state : LayerSurfaceState) : LayerEntry := ⟨state, (0, 0), none, none, false, true, false⟩

def panelMap : LayerMap := ⟨⟨100, 100⟩, [fresh middleState, fresh panelState], ⟨0, 0, 100, 100⟩⟩

theorem panelMap_arranged : panelMap.arrange.2.zone = ⟨0, 32, 100, 68⟩ ∧
    Arranged ⟨100, 100⟩ panelMap.arrange.2.layers panelMap.arrange.2.zone := by
  have hfits : Fits panelMap.output (panelMap.layers.map LayerEntry.state) := by
    refine ⟨⟨by decide, by decide, ?_, by decide, by decide⟩, ?_, ?_⟩
    · intro s hs edge
      simp only [panelMap, map_cons, map_nil, mem_cons, not_mem_nil, or_false] at hs
      rcases hs with rfl | rfl <;> cases edge <;> decide
    · intro before s after hsplit hcare
      have horder : placingOrder id (panelMap.layers.map LayerEntry.state) = [panelState, middleState] := by decide
      rw [horder] at hsplit
      rcases before with _ | ⟨b, _ | ⟨c, before⟩⟩
      · rw [nil_append, List.cons.injEq] at hsplit
        obtain ⟨rfl, -⟩ := hsplit
        decide
      · rw [cons_append, nil_append, List.cons.injEq, List.cons.injEq] at hsplit
        obtain ⟨rfl, rfl, -⟩ := hsplit
        decide
      · simp at hsplit
    · intro s hs hcare
      simp only [panelMap, map_cons, map_nil, mem_cons, not_mem_nil, or_false] at hs
      rcases hs with rfl | rfl <;> cases hcare
  exact ⟨by decide, (arrange_respects_zones panelMap hfits).2.1⟩

end LayerMap

end TensorDE.Protocol.Layers
