import TensorDE.Lib.Saturating
import TensorDE.Lib.Sorting

set_option linter.dupNamespace false

namespace TensorDE.Wm.LayerScene

open Sorting Saturating Std List

inductive WlrLayer where
  | background
  | bottom
  | top
  | overlay
deriving DecidableEq

structure Rect where
  x : Int
  y : Int
  width : Nat
  height : Nat
deriving DecidableEq

structure ContentSpan where
  start : Nat
  len : Nat
deriving DecidableEq

def u32Max : Nat := 2 ^ 32 - 1

def u64Max : Nat := 2 ^ 64 - 1

def ContentSpan.new (start len : Nat) : Option ContentSpan := if start ≤ u32Max ∧ len ≤ u32Max then some ⟨start, len⟩ else none

variable {ε γ : Type}

/-- The effects are those of `layer_surface_background_effect`. -/
structure SceneNode (ε : Type) where
  viewId : Nat
  stackingOrder : Nat
  geometry : Rect
  effects : ε
  content : ContentSpan
deriving DecidableEq

/-- `drawOrder` holds the nodes in place of their indices. -/
structure SceneSnapshot (ε γ : Type) where
  workspaceId : Nat
  viewport : Rect
  nodes : List (SceneNode ε)
  contents : List γ
  drawOrder : List (SceneNode ε)

def SceneNode.compareDraw (a b : SceneNode ε) : Ordering :=
  (compare a.stackingOrder b.stackingOrder).then (compare a.viewId b.viewId)

def SceneSnapshot.withContent (workspaceId : Nat) (viewport : Rect) (nodes : List (SceneNode ε)) (contents : List γ) :
    SceneSnapshot ε γ :=
  let nodes := sortBy (fun a b => compare a.viewId b.viewId) nodes
  ⟨workspaceId, viewport, nodes, contents, sortBy SceneNode.compareDraw nodes⟩

/-- A mapped layer surface with what the compositor has registered for it; the geometry is relative to the output. -/
structure LayerSurface (ε γ : Type) where
  viewId : Nat
  layer : WlrLayer
  alive : Bool
  hasBuffer : Bool
  geometry : Option (Int × Int × Int × Int)
  contents : List γ
  backgroundEffect : Rect → ε

def WlrLayer.base : WlrLayer → Nat
  | .background => 0
  | .bottom => 1000
  | .top => u64Max / 4
  | .overlay => u64Max / 2

variable (layer : WlrLayer)

def layerStackingOrder (index : Nat) : Nat := min (layer.base + index) u64Max

/-- The nodes and contents so far and the index of the next layer surface. -/
structure Merging (ε γ : Type) where
  nodes : List (SceneNode ε)
  contents : List γ
  layerIndex : Nat

variable (logical : Rect)

def globalRect : Int × Int × Int × Int → Rect
  | (x, y, w, h) => ⟨addI32 logical.x x, addI32 logical.y y, w.toNat, h.toNat⟩

def LayerSurface.placed (layer : LayerSurface ε γ) : Option (Int × Int × Int × Int) :=
  if layer.alive && layer.hasBuffer && !layer.contents.isEmpty then layer.geometry else none

def Merging.add (s : Merging ε γ) (layer : LayerSurface ε γ) : Merging ε γ :=
  match layer.placed with
  | none => s
  | some geometry =>
    match ContentSpan.new s.contents.length layer.contents.length with
    | none => { s with contents := s.contents ++ layer.contents }
    | some span =>
      if (globalRect logical geometry).width = 0 ∨ (globalRect logical geometry).height = 0 then
        { s with contents := s.contents ++ layer.contents }
      else
        ⟨s.nodes ++ [⟨layer.viewId, layerStackingOrder layer.layer s.layerIndex, globalRect logical geometry,
          layer.backgroundEffect (globalRect logical geometry), span⟩], s.contents ++ layer.contents,
          min (s.layerIndex + 1) u64Max⟩

def mergeLayerSurfaces (scene : SceneSnapshot ε γ) (layers : Option (List (LayerSurface ε γ))) (logical : Rect) :
    SceneSnapshot ε γ :=
  match layers with
  | none => scene
  | some layers =>
    let s := layers.foldl (Merging.add logical) ⟨scene.nodes, scene.contents, 0⟩
    .withContent scene.workspaceId logical s.nodes s.contents

/-- The surfaces that get a node, when so many contents stand before those of the first. -/
def drawn (logical : Rect) : Nat → List (LayerSurface ε γ) → List (LayerSurface ε γ)
  | _, [] => []
  | start, layer :: layers =>
    match layer.placed with
    | none => drawn logical start layers
    | some geometry =>
      if (ContentSpan.new start layer.contents.length).isNone ∨
          (globalRect logical geometry).width = 0 ∨ (globalRect logical geometry).height = 0 then
        drawn logical (start + layer.contents.length) layers
      else layer :: drawn logical (start + layer.contents.length) layers

structure Bookends (views : List (SceneNode ε)) (layers : List (LayerSurface ε γ)) (order : List Nat) : Prop where
  below : ∀ l ∈ layers, l.layer = .background ∨ l.layer = .bottom → ∀ v ∈ views, [l.viewId, v.viewId].Sublist order
  above : ∀ l ∈ layers, l.layer = .top ∨ l.layer = .overlay → ∀ v ∈ views, [v.viewId, l.viewId].Sublist order
  lower : ∀ a ∈ layers, ∀ b ∈ layers, a.layer = .background → b.layer = .bottom → [a.viewId, b.viewId].Sublist order
  upper : ∀ a ∈ layers, ∀ b ∈ layers, a.layer = .top → b.layer = .overlay → [a.viewId, b.viewId].Sublist order
  mapping : ∀ a b, [a, b].Sublist layers → a.layer = b.layer → [a.viewId, b.viewId].Sublist order

def SceneNode.key (node : SceneNode ε) : Nat × Nat := (node.stackingOrder, node.viewId)

/-- One number and view id comes before another in draw order. -/
def Before (a b : Nat × Nat) : Prop := a.1 < b.1 ∨ a.1 = b.1 ∧ a.2 < b.2

/-- The numbers of the views lie between those that the layers reach. -/
structure NumbersApart (views : List (SceneNode ε)) (layers : List (LayerSurface ε γ)) : Prop where
  background : ∀ i l, layers[i]? = some l → l.layer = .background → ∀ v ∈ views,
    Before (min i u64Max, l.viewId) v.key
  bottom : ∀ i l, layers[i]? = some l → l.layer = .bottom → ∀ v ∈ views,
    Before (min (1000 + i) u64Max, l.viewId) v.key
  top : ∀ i l, layers[i]? = some l → l.layer = .top → ∀ v ∈ views,
    Before v.key (min (u64Max / 4 + i) u64Max, l.viewId)
  overlay : ∀ i l, layers[i]? = some l → l.layer = .overlay → ∀ v ∈ views,
    Before v.key (min (u64Max / 2 + i) u64Max, l.viewId)
  lower : ∀ i j a b, layers[i]? = some a → layers[j]? = some b → a.layer = .background → b.layer = .bottom →
    Before (min i u64Max, a.viewId) (min (1000 + j) u64Max, b.viewId)
  upper : ∀ i j a b, layers[i]? = some a → layers[j]? = some b → a.layer = .top → b.layer = .overlay →
    Before (min (u64Max / 4 + i) u64Max, a.viewId) (min (u64Max / 2 + j) u64Max, b.viewId)
  mapping : ∀ i j a b, layers[i]? = some a → layers[j]? = some b → i < j → a.layer = b.layer →
    a.layer.base + i < u64Max ∨ a.viewId < b.viewId

def layerKey (l : LayerSurface ε γ × Nat) : Nat × Nat := (min (l.1.layer.base + l.2) u64Max, l.1.viewId)

section Pairs

variable {α : Type} {a b : α} {xs : List α}

theorem pair_sublist_or (ha : a ∈ xs) (hb : b ∈ xs) (hne : a ≠ b) : [a, b].Sublist xs ∨ [b, a].Sublist xs := by
  obtain ⟨pre, post, rfl⟩ := append_of_mem ha
  rcases mem_append.mp hb with hb | hb
  · grind
  · rcases mem_cons.mp hb with rfl | hb
    · exact absurd rfl hne
    · exact .inl (.trans (.cons_cons _ (singleton_sublist.mpr hb)) (sublist_append_right _ _))

theorem pair_sublist_iff_getElem : [a, b].Sublist xs ↔ ∃ i j : Nat, i < j ∧ xs[i]? = some a ∧ xs[j]? = some b := by
  constructor
  · intro h
    have hall : xs.Pairwise fun x y => ∃ i j : Nat, i < j ∧ xs[i]? = some x ∧ xs[j]? = some y :=
      pairwise_iff_getElem.mpr fun i j hi hj hij =>
        ⟨i, j, hij, getElem?_eq_getElem hi, getElem?_eq_getElem hj⟩
    exact hall.forall_sublist h
  · rintro ⟨i, j, hij, ha, hb⟩
    obtain ⟨hi, rfl⟩ := List.getElem?_eq_some_iff.mp ha
    obtain ⟨hj, rfl⟩ := List.getElem?_eq_some_iff.mp hb
    have hall : xs.Pairwise fun x y => [x, y].Sublist xs := pairwise_iff_forall_sublist.mpr fun h => h
    exact pairwise_iff_getElem.mp hall i j hi hj hij

/-- In a list in draw order one view id stands before another when its key does. -/
theorem ids_sublist_iff {keys : List (Nat × Nat)} (hsorted : keys.Pairwise Before) (hids : (keys.map Prod.snd).Nodup)
    {k l : Nat × Nat} (hk : k ∈ keys) (hl : l ∈ keys) : [k.2, l.2].Sublist (keys.map Prod.snd) ↔ Before k l := by
  have hpair : ∀ {k l : Nat × Nat}, [k, l].Sublist keys → Before k l := hsorted.forall_sublist
  constructor
  · intro h
    obtain ⟨pair, hsub, hmap⟩ := sublist_map_iff.mp h
    obtain ⟨k', rest, rfl, hk', hrest⟩ := map_eq_cons_iff.mp hmap.symm
    obtain ⟨l', hone, hl'⟩ := map_eq_singleton_iff.mp hrest
    grind
  · intro h
    have hne : k ≠ l := by
      rintro rfl
      exact h.elim (lt_irrefl _) fun h => lt_irrefl _ h.2
    rcases pair_sublist_or hk hl hne with hsub | hsub
    · exact hsub.map Prod.snd
    · have := hpair hsub
      rw [Before] at h this
      omega

end Pairs

theorem drawOrder_sorted (workspaceId : Nat) (viewport : Rect) (nodes : List (SceneNode ε)) (contents : List γ)
    (hids : (nodes.map SceneNode.viewId).Nodup) :
    ((SceneSnapshot.withContent workspaceId viewport nodes contents).drawOrder.map SceneNode.key).Pairwise Before := by
  have htrans : TransCmp (SceneNode.compareDraw (ε := ε)) := transCmp_then (transCmp_on _) (transCmp_on _)
  have hsorted := sortBy_sorted htrans (sortBy (fun a b => compare a.viewId b.viewId) nodes)
  have hnodup : ((SceneSnapshot.withContent workspaceId viewport nodes contents).drawOrder.map SceneNode.viewId).Nodup :=
    (((sortBy_perm _ _).trans (sortBy_perm _ _)).map _).nodup_iff.mpr hids
  rw [pairwise_map]
  rw [List.Nodup, pairwise_map] at hnodup
  refine hsorted.imp₂ (fun a b hle hne => ?_) hnodup
  grind [le_iff, SceneNode.compareDraw, Ordering.isLE_then_iff_and, Nat.isLE_compare, Before, SceneNode.key]

theorem drawn_sublist (logical : Rect) (start : Nat) (layers : List (LayerSurface ε γ)) :
    (drawn logical start layers).Sublist layers := by
  fun_induction drawn logical start layers with
  | case1 => exact .slnil
  | case4 start layer layers geometry hplaced hshown ih => exact .cons_cons _ ih
  | _ => exact .cons _ ‹_›

theorem foldl_add_keys (logical : Rect) (layers : List (LayerSurface ε γ)) (s : Merging ε γ) (index : Nat)
    (hindex : s.layerIndex = min index u64Max) : (layers.foldl (Merging.add logical) s).nodes.map SceneNode.key =
      s.nodes.map SceneNode.key ++ ((drawn logical s.contents.length layers).zipIdx index).map layerKey := by
  induction layers generalizing s index with
  | nil => simp [drawn]
  | cons layer layers ih =>
    rw [foldl_cons, Merging.add, drawn]
    cases layer.placed with
    | none => exact ih s index hindex
    | some geometry =>
      cases hspan : ContentSpan.new s.contents.length layer.contents.length with
      | none => simpa using ih { s with contents := s.contents ++ layer.contents } index hindex
      | some span =>
        by_cases hempty : (globalRect logical geometry).width = 0 ∨ (globalRect logical geometry).height = 0
        · simpa [hempty] using ih { s with contents := s.contents ++ layer.contents } index hindex
        · have hnext : min (s.layerIndex + 1) u64Max = min (index + 1) u64Max := by
            omega
          simp only [hempty]
          rw [ih _ (index + 1) hnext]
          grind -linarith [SceneNode.key, layerKey, layerStackingOrder]

variable {scene : SceneSnapshot ε γ} {layers : List (LayerSurface ε γ)} {logical : Rect}

theorem mem_layerKeys {l : LayerSurface ε γ} {shown : List (LayerSurface ε γ)} {i : Nat} (h : shown[i]? = some l) :
    layerKey (l, i) ∈ shown.zipIdx.map layerKey :=
  mem_map_of_mem (mem_zipIdx_iff_getElem?.mpr h)

/-- The layer surfaces bookend the views just when the numbers are apart. -/
theorem mergeLayerSurfaces_bookends_iff (hids : (scene.nodes.map SceneNode.viewId ++ layers.map LayerSurface.viewId).Nodup) :
    Bookends scene.nodes (drawn logical scene.contents.length layers)
        ((mergeLayerSurfaces scene (some layers) logical).drawOrder.map SceneNode.viewId) ↔
      NumbersApart scene.nodes (drawn logical scene.contents.length layers) := by
  set shown := drawn logical scene.contents.length layers with hshown
  set merged := layers.foldl (Merging.add logical) ⟨scene.nodes, scene.contents, 0⟩ with hmerged
  set order := (mergeLayerSurfaces scene (some layers) logical).drawOrder with horder
  have hkeys : merged.nodes.map SceneNode.key = scene.nodes.map SceneNode.key ++ shown.zipIdx.map layerKey :=
    foldl_add_keys logical layers ⟨scene.nodes, scene.contents, 0⟩ 0 rfl
  have hview : merged.nodes.map SceneNode.viewId = scene.nodes.map SceneNode.viewId ++ shown.map LayerSurface.viewId := by
    have := congrArg (List.map Prod.snd) hkeys
    have hfst : shown.zipIdx.map (LayerSurface.viewId ∘ Prod.fst) = shown.map LayerSurface.viewId := by
      rw [← map_map, zipIdx_map_fst]
    rw [← hfst]
    simpa only [map_append, map_map] using! this
  have hnodup : (merged.nodes.map SceneNode.viewId).Nodup := by
    rw [hview]
    exact hids.sublist ((List.Sublist.refl _).append ((drawn_sublist _ _ _).map _))
  have hsorted : (order.map SceneNode.key).Pairwise Before := drawOrder_sorted _ _ _ _ hnodup
  have hperm : order.Perm merged.nodes := (sortBy_perm _ _).trans (sortBy_perm _ _)
  have hsnd : (order.map SceneNode.key).map Prod.snd = order.map SceneNode.viewId := by simp [SceneNode.key]
  have hordered : ((order.map SceneNode.key).map Prod.snd).Nodup := by
    rw [hsnd]
    exact (hperm.map _).nodup_iff.mpr hnodup
  have hmem : ∀ k, k ∈ scene.nodes.map SceneNode.key ++ shown.zipIdx.map layerKey → k ∈ order.map SceneNode.key :=
    fun k hk => ((hperm.map _).mem_iff).mpr (hkeys ▸ hk)
  have hiff : ∀ k l, k ∈ scene.nodes.map SceneNode.key ++ shown.zipIdx.map layerKey →
      l ∈ scene.nodes.map SceneNode.key ++ shown.zipIdx.map layerKey →
      ([k.2, l.2].Sublist (order.map SceneNode.viewId) ↔ Before k l) := fun k l hk hl => by
    grind [ids_sublist_iff]
  have hnode : ∀ v ∈ scene.nodes, v.key ∈ scene.nodes.map SceneNode.key ++ shown.zipIdx.map layerKey :=
    fun v hv => mem_append_left _ (mem_map_of_mem hv)
  have hlayer : ∀ i l, shown[i]? = some l →
      layerKey (l, i) ∈ scene.nodes.map SceneNode.key ++ shown.zipIdx.map layerKey :=
    fun i l hl => mem_append_right _ (mem_layerKeys hl)
  have hat : ∀ l ∈ shown, ∃ i, shown[i]? = some l := fun l hl => mem_iff_getElem?.mp hl
  constructor
  · intro h
    refine ⟨fun i l hl hlayer' v hv => ?_, fun i l hl hlayer' v hv => ?_, fun i l hl hlayer' v hv => ?_,
      fun i l hl hlayer' v hv => ?_, fun i j a b ha hb hla hlb => ?_, fun i j a b ha hb hla hlb => ?_,
      fun i j a b ha hb hij hab => ?_⟩
    · have := (hiff _ _ (hlayer i l hl) (hnode v hv)).mp (h.below l (mem_of_getElem? hl) (.inl hlayer') v hv)
      simpa [layerKey, hlayer', WlrLayer.base] using this
    · have := (hiff _ _ (hlayer i l hl) (hnode v hv)).mp (h.below l (mem_of_getElem? hl) (.inr hlayer') v hv)
      simpa [layerKey, hlayer', WlrLayer.base] using this
    · have := (hiff _ _ (hnode v hv) (hlayer i l hl)).mp (h.above l (mem_of_getElem? hl) (.inl hlayer') v hv)
      simpa [layerKey, hlayer', WlrLayer.base] using this
    · have := (hiff _ _ (hnode v hv) (hlayer i l hl)).mp (h.above l (mem_of_getElem? hl) (.inr hlayer') v hv)
      simpa [layerKey, hlayer', WlrLayer.base] using this
    · have := (hiff _ _ (hlayer i a ha) (hlayer j b hb)).mp
        (h.lower a (mem_of_getElem? ha) b (mem_of_getElem? hb) hla hlb)
      simpa [layerKey, hla, hlb, WlrLayer.base] using this
    · grind [h.upper, layerKey, WlrLayer.base]
    · have := (hiff _ _ (hlayer i a ha) (hlayer j b hb)).mp
        (h.mapping a b (pair_sublist_iff_getElem.mpr ⟨i, j, hij, ha, hb⟩) hab)
      simp only [layerKey, Before, ← hab] at this
      omega
  · intro h
    refine ⟨fun l hl hlow v hv => ?_, fun l hl hhigh v hv => ?_, fun a ha b hb hla hlb => ?_,
      fun a ha b hb hla hlb => ?_, fun a b hab hsame => ?_⟩
    · obtain ⟨i, hi⟩ := hat l hl
      refine (hiff _ _ (hlayer i l hi) (hnode v hv)).mpr ?_
      rcases hlow with hlow | hlow
      · simpa [layerKey, hlow, WlrLayer.base] using! h.background i l hi hlow v hv
      · simpa [layerKey, hlow, WlrLayer.base] using! h.bottom i l hi hlow v hv
    · obtain ⟨i, hi⟩ := hat l hl
      refine (hiff _ _ (hnode v hv) (hlayer i l hi)).mpr ?_
      rcases hhigh with hhigh | hhigh
      · grind [layerKey, WlrLayer.base, h.top]
      grind [layerKey, WlrLayer.base, h.overlay]
    · obtain ⟨i, hi⟩ := hat a ha
      obtain ⟨j, hj⟩ := hat b hb
      refine (hiff _ _ (hlayer i a hi) (hlayer j b hj)).mpr ?_
      simpa [layerKey, hla, hlb, WlrLayer.base] using! h.lower i j a b hi hj hla hlb
    · obtain ⟨i, hi⟩ := hat a ha
      obtain ⟨j, hj⟩ := hat b hb
      grind [layerKey, WlrLayer.base, h.upper]
    · obtain ⟨i, j, hij, hi, hj⟩ := pair_sublist_iff_getElem.mp hab
      refine (hiff _ _ (hlayer i a hi) (hlayer j b hj)).mpr ?_
      have := h.mapping i j a b hi hj hij hsame
      simp only [layerKey, Before, ← hsame]
      omega

def firstView : SceneSnapshot Unit Unit := .withContent 1 ⟨0, 0, 100, 100⟩ [⟨1, 1, ⟨0, 0, 50, 50⟩, (), ⟨0, 0⟩⟩] []

/-- A panel in the layer `layer`. -/
def panel : LayerSurface Unit Unit := ⟨2, layer, true, true, some (0, 0, 100, 20), [()], fun _ => ()⟩

theorem mergeLayerSurfaces_bookends_iff_top :
    Bookends firstView.nodes (drawn ⟨0, 0, 100, 100⟩ firstView.contents.length [panel .top])
        ((mergeLayerSurfaces firstView (some [panel .top]) ⟨0, 0, 100, 100⟩).drawOrder.map SceneNode.viewId) ↔
      NumbersApart firstView.nodes (drawn ⟨0, 0, 100, 100⟩ firstView.contents.length [panel .top]) :=
  mergeLayerSurfaces_bookends_iff (by decide)

/-- A panel in the bottom layer is drawn over the first view. -/
theorem bottom_above_first_view :
    (mergeLayerSurfaces firstView (some [panel .bottom]) ⟨0, 0, 100, 100⟩).drawOrder.map SceneNode.viewId = [1, 2] ∧
    ¬Bookends firstView.nodes (drawn ⟨0, 0, 100, 100⟩ firstView.contents.length [panel .bottom])
      ((mergeLayerSurfaces firstView (some [panel .bottom]) ⟨0, 0, 100, 100⟩).drawOrder.map SceneNode.viewId) := by
  refine ⟨rfl, fun h => ?_⟩
  have hshown : panel .bottom ∈ drawn ⟨0, 0, 100, 100⟩ firstView.contents.length [panel .bottom] := .head _
  have hview : (⟨1, 1, ⟨0, 0, 50, 50⟩, (), ⟨0, 0⟩⟩ : SceneNode Unit) ∈ firstView.nodes := .head _
  exact absurd (h.below _ hshown (.inr rfl) _ hview) (by decide)

end TensorDE.Wm.LayerScene
