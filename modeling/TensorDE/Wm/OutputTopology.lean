import TensorDE.Lib.Boxes
import TensorDE.Lib.Maps
import TensorDE.Lib.Saturating
import TensorDE.Lib.Sorting

set_option linter.dupNamespace false

namespace TensorDE.Wm.OutputTopology

open Maps Saturating Sorting List

structure ConnectorId where
  deviceId : Nat
  connectorId : Nat
deriving DecidableEq, Ord

/-- Where an output lies in the space of all outputs. -/
structure Geometry where
  x : Int
  y : Int
  w : Nat
  h : Nat
deriving DecidableEq

variable (g : Geometry)

def Geometry.box : Box := ⟨g.x, g.y, g.x + g.w, g.y + g.h⟩

def Geometry.size : Nat × Nat := (g.w, g.h)

structure ManagedOutput where
  /-- The bytes of the connector's name. -/
  name : List UInt8
  position : Option (Int × Int)
  /-- The extents of its current mode, transformed and scaled, `none` without a mode. -/
  logical : Option (Nat × Nat)
  /-- The extents of the described mode, scaled. -/
  described : Nat × Nat
deriving DecidableEq

def ManagedOutput.mappedAt (managed : ManagedOutput) (position : Int × Int) : Option Geometry :=
  managed.logical.map fun size => ⟨position.1, position.2, size.1, size.2⟩

abbrev Entry := ConnectorId × ManagedOutput

structure RuntimeState where
  outputs : Map ConnectorId ManagedOutput
  space : Map ConnectorId Geometry

def rectsOverlap (left right : Geometry) : Bool :=
  decide (left.x < addI32 right.x right.w) && decide (right.x < addI32 left.x left.w) &&
    decide (left.y < addI32 right.y right.h) && decide (right.y < addI32 left.y left.h)

def compareNames (left right : Entry) : Ordering := (compare left.2.name right.2.name).then (compare left.1 right.1)

def comparePositions (left right : Entry) : Ordering := compare left.2.position.isNone right.2.position.isNone

variable (s : RuntimeState)

/-- The outputs with a configured position first, each group by name. -/
def RuntimeState.reflowOrder : List Entry :=
  sortBy comparePositions (sortBy compareNames (s.outputs.list.entries.map fun entry => (entry.1, entry.2)))

/-- The variables of the loop, and the space it maps the outputs in. -/
structure Reflow where
  space : Map ConnectorId Geometry
  placed : List Geometry
  autoX : Int

namespace Reflow

def size (r : Reflow) (entry : Entry) : Nat × Nat := ((r.space.find entry.1).map Geometry.size).getD entry.2.described

variable (r : Reflow)

/-- The configured position, unless the output would overlap one that is placed. -/
def configured (entry : Entry) : Option (Int × Int) :=
  entry.2.position.filter fun position =>
    !r.placed.any fun existing => rectsOverlap existing ⟨position.1, position.2, (r.size entry).1, (r.size entry).2⟩

def mapOutput (entry : Entry) (position : Int × Int) (autoX : Int) : Reflow :=
  match entry.2.mappedAt position with
  | none => ⟨r.space.erase entry.1, r.placed, autoX⟩
  | some geometry =>
    ⟨r.space.insert entry.1 geometry, r.placed ++ [geometry],
      if entry.2.position.isNone then max autoX (addI32 geometry.x geometry.w) else autoX⟩

def place (entry : Entry) : Reflow :=
  match r.configured entry with
  | some position => r.mapOutput entry position r.autoX
  | none => r.mapOutput entry (r.autoX, 0) (addI32 r.autoX (r.size entry).1)

end Reflow

def RuntimeState.reflow : Reflow := s.reflowOrder.foldl Reflow.place ⟨s.space, [], 0⟩

def RuntimeState.reflowOutputs : RuntimeState := { s with space := s.reflow.space }

/-- The coordinates of the geometry and of its far corner are signed 32-bit numbers. -/
structure Geometry.InRange (g : Geometry) : Prop where
  left : i32Min ≤ g.x
  top : i32Min ≤ g.y
  right : g.x + g.w ≤ i32Max
  bottom : g.y + g.h ≤ i32Max

/-- Every output has a mode of positive extents and is mapped with them. -/
def RuntimeState.Mapped : Prop :=
  ∀ entry ∈ s.reflowOrder, ∃ g, s.space.find entry.1 = some g ∧ entry.2.logical = some g.size ∧ 0 < g.w ∧ 0 < g.h

structure RuntimeState.InRange (s : RuntimeState) : Prop where
  configured : ∀ entry ∈ s.reflowOrder, ∀ position g, entry.2.position = some position →
    entry.2.mappedAt position = some g → g.InRange
  placed : ∀ entry ∈ s.reflowOrder, ∀ g, s.reflowOutputs.space.find entry.1 = some g → g.InRange

/-- The outputs have rectangles without a common point, and a configured position is kept where it is free of the
outputs placed before. -/
structure RuntimeState.Reflowed (s : RuntimeState) (space : Map ConnectorId Geometry) : Prop where
  apart : ∀ entry ∈ s.reflowOrder, ∀ other ∈ s.reflowOrder, entry.1 ≠ other.1 → ∃ g g',
    space.find entry.1 = some g ∧ space.find other.1 = some g' ∧ Box.Apart g.box g'.box
  kept : ∀ before entry later position g, s.reflowOrder = before ++ entry :: later → entry.2.position = some position →
    entry.2.mappedAt position = some g →
    (∀ other ∈ before, ∀ g', space.find other.1 = some g' → Box.Apart g'.box g.box) → space.find entry.1 = some g

/-- Every output of the list that cannot have its configured position finds the row from the cursor on free, as wide
and as high as it is, of the outputs placed before it. -/
inductive RowClear : List Geometry → Int → List Entry → Prop
  | nil {taken cursor} : RowClear taken cursor []
  | configured {taken cursor entry rest position g} (hposition : entry.2.position = some position)
      (hg : entry.2.mappedAt position = some g) (hfree : ∀ t ∈ taken, Box.Apart t.box g.box)
      (hrest : RowClear (taken ++ [g]) cursor rest) : RowClear taken cursor (entry :: rest)
  | automatic {taken cursor entry rest g}
      (hposition : ∀ position wanted, entry.2.position = some position → entry.2.mappedAt position = some wanted →
        ∃ t ∈ taken, ¬ Box.Apart t.box wanted.box)
      (hg : entry.2.mappedAt (cursor, 0) = some g) (hfree : ∀ t ∈ taken, Box.Apart t.box g.box)
      (hrest : RowClear (taken ++ [g]) (cursor + g.w) rest) : RowClear taken cursor (entry :: rest)

namespace Reflow

variable {r : Reflow} {entry : Entry} {entries : List Entry} {g t : Geometry} {position : Int × Int}

theorem mappedAt_eq_some : entry.2.mappedAt position = some g ↔
    entry.2.logical = some g.size ∧ g.x = position.1 ∧ g.y = position.2 := by
  obtain ⟨x, y, w, h⟩ := g
  cases hlogical : entry.2.logical with
  | none => simp [ManagedOutput.mappedAt, hlogical]
  | some size => grind [ManagedOutput.mappedAt, Geometry.size]

theorem rectsOverlap_eq_false (ht : t.InRange) (hg : g.InRange) (hw : 0 < t.w ∧ 0 < g.w) (hh : 0 < t.h ∧ 0 < g.h) :
    rectsOverlap t g = false ↔ Box.Apart t.box g.box := by
  obtain ⟨left, top, right, bottom⟩ := ht
  obtain ⟨left', top', right', bottom'⟩ := hg
  have hsum : ∀ a : Int, ∀ n : Nat, i32Min ≤ a → a + n ≤ i32Max → addI32 a n = a + n := by
    intro a n hmin hmax
    exact clampI32_of_mem (by omega) hmax
  have hproper : rectsOverlap t g = true ↔ (t.box.inter g.box).Proper := by
    simp only [rectsOverlap, hsum _ _ left right, hsum _ _ left' right', hsum _ _ top bottom, hsum _ _ top' bottom',
      Bool.and_eq_true, decide_eq_true_eq, Box.inter, Geometry.box]
    constructor
    · intro h
      exact ⟨by simp only; omega, by simp only; omega⟩
    · intro h
      obtain ⟨hwidth, hheight⟩ := h
      simp only at hwidth hheight
      omega
  rw [Box.apart_iff, ← hproper, Bool.not_eq_true]

/-- What the loop takes for granted of an output that it has not come to. -/
structure Sized (r : Reflow) (entry : Entry) (g : Geometry) : Prop where
  mapped : r.space.find entry.1 = some g
  logical : entry.2.logical = some g.size
  width : 0 < g.w
  height : 0 < g.h

theorem Sized.size_eq (h : Sized r entry g) : r.size entry = g.size := by
  rw [size, h.mapped]
  rfl

theorem place_configured (hconfigured : r.configured entry = some position) (hg : entry.2.mappedAt position = some g) :
    r.place entry = ⟨r.space.insert entry.1 g, r.placed ++ [g], r.autoX⟩ := by
  have hposition := (Option.filter_eq_some_iff.mp hconfigured).1
  grind [place, mapOutput]

theorem place_automatic (hconfigured : r.configured entry = none) (hsize : r.size entry = g.size)
    (hg : entry.2.mappedAt (r.autoX, 0) = some g) :
    r.place entry = ⟨r.space.insert entry.1 g, r.placed ++ [g], addI32 r.autoX g.w⟩ := by
  have hx := (mappedAt_eq_some.mp hg).2.1
  grind [place, mapOutput, Geometry.size]

variable {old : Geometry}

theorem place_eq (h : Sized r entry old) : ∃ g autoX, g.size = old.size ∧
    r.place entry = ⟨r.space.insert entry.1 g, r.placed ++ [g], autoX⟩ := by
  have hat : ∀ position : Int × Int, entry.2.mappedAt position = some ⟨position.1, position.2, old.w, old.h⟩ := by
    intro position
    exact mappedAt_eq_some.mpr ⟨h.logical, rfl, rfl⟩
  cases hconfigured : r.configured entry with
  | some position => exact ⟨⟨position.1, position.2, old.w, old.h⟩, _, rfl, place_configured hconfigured (hat position)⟩
  | none => exact ⟨⟨r.autoX, 0, old.w, old.h⟩, _, rfl, place_automatic hconfigured h.size_eq (hat (r.autoX, 0))⟩

/-- The outputs the loop still has to place. -/
structure Pending (r : Reflow) (entries : List Entry) : Prop where
  distinct : (entries.map Prod.fst).Nodup
  sized : ∀ entry ∈ entries, ∃ g, Sized r entry g

theorem Pending.place (h : Pending r (entry :: entries)) : Pending (r.place entry) entries := by
  obtain ⟨hentry, hdistinct⟩ := nodup_cons.mp h.distinct
  obtain ⟨old, hold⟩ := h.sized entry mem_cons_self
  obtain ⟨g, autoX, -, hplace⟩ := place_eq hold
  refine ⟨hdistinct, fun other hother => ?_⟩
  obtain ⟨kept, hkept⟩ := h.sized other (mem_cons_of_mem _ hother)
  have hne : other.1 ≠ entry.1 := fun heq => hentry (heq ▸ mem_map_of_mem hother)
  exact ⟨kept, ⟨by rw [hplace, Map.find_insert, if_neg hne]; exact hkept.mapped, hkept.logical, hkept.width, hkept.height⟩⟩

variable {later : List Entry}

theorem Pending.take (h : Pending r (entries ++ later)) : Pending r entries := by
  have hdistinct := h.distinct
  rw [map_append] at hdistinct
  exact ⟨hdistinct.of_append_left, fun other hother => h.sized other (mem_append_left _ hother)⟩

theorem Pending.drop (h : Pending r (entries ++ later)) : Pending (entries.foldl Reflow.place r) later := by
  induction entries generalizing r with
  | nil => exact h
  | cons entry entries ih => exact ih h.place

/-- The loop places the outputs one after the other, and moves none that is placed. -/
theorem Pending.foldl (h : Pending r entries) : ∃ news, (entries.foldl Reflow.place r).placed = r.placed ++ news ∧
    (∀ g ∈ news, 0 < g.w ∧ 0 < g.h) ∧
    List.Forall₂ (fun entry g => (entries.foldl Reflow.place r).space.find entry.1 = some g) entries news ∧
    ∀ id, id ∉ entries.map Prod.fst → (entries.foldl Reflow.place r).space.find id = r.space.find id := by
  induction entries generalizing r with
  | nil => exact ⟨[], (append_nil _).symm, by simp, .nil, fun _ _ => rfl⟩
  | cons entry entries ih =>
    obtain ⟨hentry, -⟩ := nodup_cons.mp h.distinct
    obtain ⟨old, hold⟩ := h.sized entry mem_cons_self
    obtain ⟨g, autoX, hsize, hplace⟩ := place_eq hold
    obtain ⟨news, hplaced, hpositive, hfind, hother⟩ := ih h.place
    rw [Geometry.size, Geometry.size, Prod.mk.injEq] at hsize
    rw [foldl_cons]
    refine ⟨g :: news, ?_, ?_, .cons ?_ hfind, fun id hid => ?_⟩
    · rw [hplaced, hplace, append_assoc]
      rfl
    · grind [hold.width, hold.height]
    · grind [Map.find_insert]
    grind [Map.find_insert]

theorem configured_eq (h : Sized r entry old) (hposition : entry.2.position = some position)
    (hat : entry.2.mappedAt position = some g) :
    r.configured entry = if r.placed.any fun existing => rectsOverlap existing g then none else some position := by
  obtain ⟨hlogical, hx, hy⟩ := mappedAt_eq_some.mp hat
  have hsize : r.size entry = g.size := h.size_eq.trans (Option.some.inj (h.logical.symm.trans hlogical))
  have hg : (⟨position.1, position.2, (r.size entry).1, (r.size entry).2⟩ : Geometry) = g := by
    rw [hsize, ← hx, ← hy]
    rfl
  grind [configured]

/-- A rectangle that the reflow compares without an overflow. -/
structure Plain (g : Geometry) : Prop where
  inRange : g.InRange
  width : 0 < g.w
  height : 0 < g.h

theorem any_overlap_iff (hplaced : ∀ t ∈ r.placed, Plain t) (hg : Plain g) :
    (r.placed.any fun existing => rectsOverlap existing g) = true ↔ ∃ t ∈ r.placed, ¬ Box.Apart t.box g.box := by
  grind +splitImp +splitIndPred [rectsOverlap_eq_false]

/-- Outputs that are apart stay so exactly where the row is clear for those that are placed in it. -/
theorem apart_foldl_iff (h : Pending r entries) (hrow : 0 ≤ r.autoX)
    (hapart : r.placed.Pairwise fun a b => Box.Apart a.box b.box) (hpositive : ∀ t ∈ r.placed, 0 < t.w ∧ 0 < t.h)
    (hconfigured : ∀ entry ∈ entries, ∀ position g, entry.2.position = some position →
      entry.2.mappedAt position = some g → g.InRange)
    (hplaced : ∀ g ∈ (entries.foldl Reflow.place r).placed, g.InRange) :
    ((entries.foldl Reflow.place r).placed.Pairwise fun a b => Box.Apart a.box b.box) ↔
      RowClear r.placed r.autoX entries := by
  induction entries generalizing r with
  | nil => exact ⟨fun _ => .nil, fun _ => hapart⟩
  | cons entry entries ih =>
    obtain ⟨old, hold⟩ := h.sized entry mem_cons_self
    obtain ⟨news, hnews, -, -, -⟩ := h.place.foldl
    rw [foldl_cons] at hplaced ⊢
    have hplain : ∀ t ∈ r.placed, Plain t := by
      intro t ht
      obtain ⟨g, autoX, -, hplace⟩ := place_eq hold
      have hmem : t ∈ (entries.foldl Reflow.place (r.place entry)).placed := by
        rw [hnews, hplace]
        exact mem_append_left _ (mem_append_left _ ht)
      exact ⟨hplaced t hmem, (hpositive t ht).1, (hpositive t ht).2⟩
    have hat : ∀ position : Int × Int, ∃ g, entry.2.mappedAt position = some g ∧ 0 < g.w ∧ 0 < g.h := by
      intro position
      exact ⟨⟨position.1, position.2, old.w, old.h⟩, mappedAt_eq_some.mpr ⟨hold.logical, rfl, rfl⟩, hold.width, hold.height⟩
    have hrest : ∀ g autoX, r.place entry = ⟨r.space.insert entry.1 g, r.placed ++ [g], autoX⟩ → 0 < g.w ∧ 0 < g.h →
        0 ≤ autoX → (∀ t ∈ r.placed, Box.Apart t.box g.box) →
        (((entries.foldl Reflow.place (r.place entry)).placed.Pairwise fun a b => Box.Apart a.box b.box) ↔
          RowClear (r.placed ++ [g]) autoX entries) := by
      intro g autoX hplace hg hautoX hfree
      have hpending := h.place
      rw [hplace] at hpending hplaced ⊢
      refine ih hpending hautoX ?_ ?_ (fun other hother => hconfigured other (mem_cons_of_mem _ hother)) hplaced
      · grind
      · grind
    cases hchoice : r.configured entry with
    | some position =>
      obtain ⟨g, hg, hsize⟩ := hat position
      have hposition := (Option.filter_eq_some_iff.mp hchoice).1
      have hrange := hconfigured entry mem_cons_self position g hposition hg
      have hfree : ∀ t ∈ r.placed, Box.Apart t.box g.box := by
        rw [configured_eq hold hposition hg] at hchoice
        have hnone : ¬ ∃ t ∈ r.placed, ¬ Box.Apart t.box g.box := by
          intro hsome
          rw [if_pos ((any_overlap_iff hplain ⟨hrange, hsize.1, hsize.2⟩).mpr hsome)] at hchoice
          cases hchoice
        intro t ht
        by_contra hoverlap
        exact hnone ⟨t, ht, hoverlap⟩
      rw [hrest g r.autoX (place_configured hchoice hg) hsize hrow hfree]
      constructor
      · intro hclear
        exact .configured hposition hg hfree hclear
      grind +splitImp +splitIndPred
    | none =>
      obtain ⟨g, hg, hsize⟩ := hat (r.autoX, 0)
      have hwanted : ∀ position wanted, entry.2.position = some position → entry.2.mappedAt position = some wanted →
          ∃ t ∈ r.placed, ¬ Box.Apart t.box wanted.box := by
        intro position wanted hposition hwanted
        have hrange := hconfigured entry mem_cons_self position wanted hposition hwanted
        have hlogical := (mappedAt_eq_some.mp hwanted).1
        have hsize' : old.size = wanted.size := Option.some.inj (hold.logical.symm.trans hlogical)
        rw [Geometry.size, Geometry.size, Prod.mk.injEq] at hsize'
        rw [configured_eq hold hposition hwanted] at hchoice
        by_contra hnone
        rw [if_neg fun hany => hnone ((any_overlap_iff hplain
          ⟨hrange, hsize'.1 ▸ hold.width, hsize'.2 ▸ hold.height⟩).mp hany)] at hchoice
        cases hchoice
      obtain ⟨hlogical, hx, hy⟩ := mappedAt_eq_some.mp hg
      have hsizeEq : r.size entry = g.size := hold.size_eq.trans (Option.some.inj (hold.logical.symm.trans hlogical))
      have hplace := place_automatic hchoice hsizeEq hg
      have hmem : g ∈ (entries.foldl Reflow.place (r.place entry)).placed := by
        rw [hnews, hplace]
        exact mem_append_left _ (mem_append_right _ (mem_singleton.mpr rfl))
      have hadd : addI32 r.autoX g.w = r.autoX + g.w := by
        have hright := (hplaced g hmem).right
        rw [hx] at hright
        exact addI32_of_nonneg (by omega) hright
      rw [hadd] at hplace
      constructor
      · intro hpair
        have hfree : ∀ t ∈ r.placed, Box.Apart t.box g.box := by
          intro t ht
          rw [hnews, hplace, pairwise_append, pairwise_append] at hpair
          exact hpair.1.2.2 t ht g (mem_singleton.mpr rfl)
        exact .automatic hwanted hg hfree ((hrest g _ hplace hsize (by omega) hfree).mp hpair)
      · intro hclear
        cases hclear with
        | configured hposition hg' hfree _ => grind -linarith
        | automatic _ hg' hfree hclear => grind

end Reflow

namespace RuntimeState

open Reflow

variable {s : RuntimeState}

theorem reflowOrder_nodup (s : RuntimeState) : (s.reflowOrder.map Prod.fst).Nodup := by
  have hperm : s.reflowOrder.Perm (s.outputs.list.entries.map fun entry => (entry.1, entry.2)) :=
    (sortBy_perm _ _).trans (sortBy_perm _ _)
  rw [(hperm.map Prod.fst).nodup_iff, map_map]
  exact s.outputs.keys_nodup

def before (s : RuntimeState) : Reflow := ⟨s.space, [], 0⟩

theorem Mapped.pending (h : s.Mapped) : s.before.Pending s.reflowOrder where
  distinct := s.reflowOrder_nodup
  sized entry hentry := by
    obtain ⟨g, hfind, hlogical, hw, hh⟩ := h entry hentry
    exact ⟨g, hfind, hlogical, hw, hh⟩

theorem Mapped.placed (h : s.Mapped) : ∃ news, s.reflow.placed = news ∧ (∀ g ∈ news, 0 < g.w ∧ 0 < g.h) ∧
    List.Forall₂ (fun entry g => s.reflowOutputs.space.find entry.1 = some g) s.reflowOrder news := by
  obtain ⟨news, hplaced, hpositive, hfind, -⟩ := h.pending.foldl
  exact ⟨news, hplaced, hpositive, hfind⟩

theorem apart_iff_placed (h : s.Mapped) : (∀ entry ∈ s.reflowOrder, ∀ other ∈ s.reflowOrder, entry.1 ≠ other.1 → ∃ g g',
      s.reflowOutputs.space.find entry.1 = some g ∧ s.reflowOutputs.space.find other.1 = some g' ∧ Box.Apart g.box g'.box) ↔
      s.reflow.placed.Pairwise fun a b => Box.Apart a.box b.box := by
  obtain ⟨news, hplaced, -, hfind⟩ := h.placed
  rw [hplaced]
  constructor
  · intro hall
    have hpair : s.reflowOrder.Pairwise fun entry other => ∃ g g', s.reflowOutputs.space.find entry.1 = some g ∧
        s.reflowOutputs.space.find other.1 = some g' ∧ Box.Apart g.box g'.box := by
      refine (pairwise_map.mp s.reflowOrder_nodup).imp_of_mem ?_
      intro entry other hentry hother hne
      exact hall entry hentry other hother hne
    grind [pairwise_of_forall₂]
  · intro hpair
    have horder : s.reflowOrder.Pairwise fun entry other => ∃ g g', s.reflowOutputs.space.find entry.1 = some g ∧
        s.reflowOutputs.space.find other.1 = some g' ∧ Box.Apart g.box g'.box :=
      pairwise_of_forall₂ hfind.flip (fun g g' _ _ hg hg' hapart => ⟨g, g', hg, hg', hapart⟩) hpair
    have hsymm : Std.Symm fun entry other : Entry => ∃ g g', s.reflowOutputs.space.find entry.1 = some g ∧
        s.reflowOutputs.space.find other.1 = some g' ∧ Box.Apart g.box g'.box := by
      constructor
      rintro entry other ⟨g, g', hg, hg', hapart⟩
      exact ⟨g', g, hg', hg, hapart.symm⟩
    grind [horder.forall]

variable {g : Geometry}

theorem InRange.of_placed (h : s.InRange) (hmapped : s.Mapped) (hg : g ∈ s.reflow.placed) : g.InRange := by
  obtain ⟨news, hplaced, -, hfind⟩ := hmapped.placed
  rw [hplaced] at hg
  obtain ⟨entry, hentry, hg⟩ := exists_of_forall₂ hfind hg
  exact h.placed entry hentry g hg

theorem configured_kept (hmapped : s.Mapped) (hrange : s.InRange) {before later : List Entry} {entry : Entry}
    {position : Int × Int} (horder : s.reflowOrder = before ++ entry :: later)
    (hposition : entry.2.position = some position) (hg : entry.2.mappedAt position = some g)
    (hfree : ∀ other ∈ before, ∀ g', s.reflowOutputs.space.find other.1 = some g' → Box.Apart g'.box g.box) :
    s.reflowOutputs.space.find entry.1 = some g := by
  have hpending := hmapped.pending
  rw [horder] at hpending
  have hentry : entry ∈ s.reflowOrder := horder ▸ mem_append_right _ mem_cons_self
  obtain ⟨news, hplaced, hpositive, hfind, -⟩ := hpending.take.foldl
  have hnext := hpending.drop
  obtain ⟨old, hold⟩ := hnext.sized entry mem_cons_self
  obtain ⟨hfresh, -⟩ := nodup_cons.mp hnext.distinct
  obtain ⟨-, -, -, -, hkept⟩ := hnext.foldl
  obtain ⟨-, -, -, -, hafter⟩ := hnext.place.foldl
  have hspace : s.reflowOutputs.space = ((entry :: later).foldl Reflow.place (before.foldl Reflow.place s.before)).space := by
    rw [← foldl_append, ← horder]
    rfl
  have hnews : ∀ t ∈ (before.foldl Reflow.place s.before).placed, ∃ other ∈ before,
      s.reflowOutputs.space.find other.1 = some t := by
    intro t ht
    rw [hplaced] at ht
    obtain ⟨other, hother, ht⟩ := exists_of_forall₂ hfind ht
    refine ⟨other, hother, ?_⟩
    have hnotin : other.1 ∉ (entry :: later).map Prod.fst := by
      intro hmem
      have hdistinct := hpending.distinct
      rw [map_append, nodup_append] at hdistinct
      exact hdistinct.2.2 _ (mem_map_of_mem hother) _ hmem rfl
    rw [hspace, hkept _ hnotin]
    exact ht
  have hplain : ∀ t ∈ (before.foldl Reflow.place s.before).placed, Plain t := by
    intro t ht
    obtain ⟨other, hother, hfound⟩ := hnews t ht
    rw [hplaced] at ht
    exact ⟨hrange.placed other (horder ▸ mem_append_left _ hother) t hfound, (hpositive t ht).1, (hpositive t ht).2⟩
  have hchoice : (before.foldl Reflow.place s.before).configured entry = some position := by
    rw [configured_eq hold hposition hg]
    have hlogical := (mappedAt_eq_some.mp hg).1
    have hsize : old.size = g.size := Option.some.inj (hold.logical.symm.trans hlogical)
    rw [Geometry.size, Geometry.size, Prod.mk.injEq] at hsize
    refine if_neg fun hany => ?_
    obtain ⟨t, ht, hoverlap⟩ := (any_overlap_iff hplain
      ⟨hrange.configured entry hentry position g hposition hg, hsize.1 ▸ hold.width, hsize.2 ▸ hold.height⟩).mp hany
    obtain ⟨other, hother, hfound⟩ := hnews t ht
    exact hoverlap (hfree other hother t hfound)
  rw [hspace, foldl_cons, hafter _ hfresh, place_configured hchoice hg, Map.find_insert, if_pos rfl]

/-- The reflow keeps the outputs apart exactly where each output without its configured position finds the row clear. -/
theorem reflowed_iff_rowClear (hmapped : s.Mapped) (hrange : s.InRange) :
    s.Reflowed s.reflowOutputs.space ↔ RowClear [] 0 s.reflowOrder := by
  have hapart := apart_foldl_iff hmapped.pending le_rfl .nil (by simp [before]) hrange.configured fun g hg =>
    hrange.of_placed hmapped hg
  constructor
  · intro h
    exact hapart.mp ((apart_iff_placed hmapped).mp h.apart)
  · intro h
    refine ⟨(apart_iff_placed hmapped).mpr (hapart.mpr h), ?_⟩
    intro before entry later position g horder hposition hg hfree
    grind -linarith [configured_kept]

/-- Two equal displays, mapped where a new output is mapped first. -/
def twoOutputs (first second : Option (Int × Int)) : RuntimeState where
  outputs := (Map.empty.insert ⟨1, 1⟩ ⟨[65], first, some (1920, 1080), (1920, 1080)⟩).insert ⟨1, 2⟩
    ⟨[66], second, some (1920, 1080), (1920, 1080)⟩
  space := (Map.empty.insert ⟨1, 1⟩ ⟨0, 0, 1920, 1080⟩).insert ⟨1, 2⟩ ⟨0, 0, 1920, 1080⟩

/-- What has to be looked up to know that two displays are in the domain of the reflow. -/
structure TwoPlaced (first second : Option (Int × Int)) (g g' : Geometry) : Prop where
  order : (twoOutputs first second).reflowOrder = [(⟨1, 1⟩, ⟨[65], first, some (1920, 1080), (1920, 1080)⟩),
    (⟨1, 2⟩, ⟨[66], second, some (1920, 1080), (1920, 1080)⟩)]
  placed : (twoOutputs first second).reflowOutputs.space.find ⟨1, 1⟩ = some g
  placed' : (twoOutputs first second).reflowOutputs.space.find ⟨1, 2⟩ = some g'

variable {first second : Option (Int × Int)} {g' : Geometry}

theorem TwoPlaced.mapped (h : TwoPlaced first second g g') : (twoOutputs first second).Mapped := by
  intro entry hentry
  rw [h.order, mem_cons, mem_singleton] at hentry
  obtain rfl | rfl := hentry <;> exact ⟨⟨0, 0, 1920, 1080⟩, rfl, rfl, by decide, by decide⟩

theorem TwoPlaced.inRange (h : TwoPlaced first second g g')
    (horigin : ∀ position, first = some position ∨ second = some position → position = (0, 0)) (hg : g.InRange)
    (hg' : g'.InRange) : (twoOutputs first second).InRange := by
  have hwanted : ∀ position wanted, position = (0, 0) → wanted = (⟨position.1, position.2, 1920, 1080⟩ : Geometry) →
      wanted.InRange := by
    rintro position wanted rfl rfl
    exact ⟨by decide, by decide, by decide, by decide⟩
  constructor
  · intro entry hentry position wanted hposition hat
    rw [h.order, mem_cons, mem_singleton] at hentry
    obtain rfl | rfl := hentry
    · exact hwanted position wanted (horigin position (.inl hposition)) (Option.some.inj hat).symm
    · exact hwanted position wanted (horigin position (.inr hposition)) (Option.some.inj hat).symm
  grind +splitImp +splitIndPred

theorem unpositioned_side_by_side : (twoOutputs none none).Reflowed (twoOutputs none none).reflowOutputs.space := by
  have hplaced : TwoPlaced none none ⟨0, 0, 1920, 1080⟩ ⟨1920, 0, 1920, 1080⟩ :=
    ⟨by decide +kernel, by decide +kernel, by decide +kernel⟩
  have hrange : (twoOutputs none none).InRange := hplaced.inRange (fun position h => by cases h <;> contradiction)
    ⟨by decide, by decide, by decide, by decide⟩ ⟨by decide, by decide, by decide, by decide⟩
  rw [reflowed_iff_rowClear hplaced.mapped hrange, hplaced.order]
  refine .automatic (fun _ _ h => by cases h) rfl (by simp) (.automatic (fun _ _ h => by cases h) rfl ?_ .nil)
  intro t ht
  obtain rfl := mem_singleton.mp ht
  exact (Box.apart_iff).mpr (by decide)

/-- An output without a position is put over the one that is configured at the origin. -/
theorem unpositioned_over_configured : ¬ ∀ s : RuntimeState, s.Mapped → s.InRange → s.Reflowed s.reflowOutputs.space := by
  have hplaced : TwoPlaced (some (0, 0)) none ⟨0, 0, 1920, 1080⟩ ⟨0, 0, 1920, 1080⟩ :=
    ⟨by decide +kernel, by decide +kernel, by decide +kernel⟩
  intro hall
  have hrange : (twoOutputs (some (0, 0)) none).InRange := by
    refine hplaced.inRange ?_ ⟨by decide, by decide, by decide, by decide⟩ ⟨by decide, by decide, by decide, by decide⟩
    rintro position (h | h) <;> cases h
    rfl
  obtain ⟨g, g', hg, hg', hapart⟩ := (hall _ hplaced.mapped hrange).apart _ (hplaced.order ▸ mem_cons_self) _
    (hplaced.order ▸ mem_cons_of_mem _ mem_cons_self) (by decide)
  cases hplaced.placed.symm.trans hg
  cases hplaced.placed'.symm.trans hg'
  exact (Box.apart_iff).mp hapart (by decide)

end RuntimeState

end TensorDE.Wm.OutputTopology
