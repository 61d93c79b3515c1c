import Mathlib.Tactic
import Mathlib.Data.Set.Finite.Lemmas

namespace TensorDE.Schedule

open Relation List

variable {α : Type} [LinearOrder α]

/-- The orders in which a scheduler can run the nodes when it always takes the least one among
those that have nothing left to wait for. -/
inductive Greedy (nodes : α → Prop) (E : α → α → Prop) : List α → Prop where
  | nil : Greedy nodes E []
  | snoc {order : List α} {x : α} : Greedy nodes E order → nodes x → x ∉ order → (∀ z, E z x → z ∈ order) →
      (∀ y, nodes y → y ∉ order → (∀ z, E z y → z ∈ order) → x ≤ y) → Greedy nodes E (order ++ [x])

variable (E : α → α → Prop)

/-- What comes after `c`, and everything when nothing has been passed yet. -/
def Since (c : Option α) (u : α) : Prop := ∀ x ∈ c, TransGen E x u

/-- What `v` still waits for once `c` has run, with `v` itself. -/
def Needs (c : Option α) (v : α) : Set α := {u | Since E c u ∧ ReflTransGen E u v}

/-- The order of two nodes, read off the relation alone: the greatest node that each one needs decides,
and when they share it, what comes after that node does. -/
inductive Ahead (E : α → α → Prop) : Option α → α → α → Prop where
  | first {c : Option α} {i j a b : α} : IsGreatest (Needs E c i) a → IsGreatest (Needs E c j) b → a < b → Ahead E c i j
  | reached {c : Option α} {i j : α} : IsGreatest (Needs E c i) i → IsGreatest (Needs E c j) i → i ≠ j → Ahead E c i j
  | next {c : Option α} {i j m : α} : IsGreatest (Needs E c i) m → IsGreatest (Needs E c j) m → m ≠ i → m ≠ j →
      Ahead E (some m) i j → Ahead E c i j

namespace Greedy

variable {nodes : α → Prop} {E : α → α → Prop} {order : List α} {i j x y z : α}

section

variable (h : Greedy nodes E order)
include h

theorem nodup : order.Nodup := by
  induction h with
  | nil => exact nodup_nil
  | snoc _ _ hx _ _ ih => grind

theorem nodes_of_mem (hx : x ∈ order) : nodes x := by
  induction h with
  | nil => cases hx
  | snoc _ hn _ _ _ ih => grind

theorem waits (hx : x ∈ order) (hE : E z x) : order.idxOf z < order.idxOf x := by
  induction h with
  | nil => cases hx
  | @snoc order last _ _ hlast hpre _ ih => grind

theorem least (hx : x ∈ order) (hy : nodes y) (hle : order.idxOf x ≤ order.idxOf y)
    (hready : ∀ z, E z y → order.idxOf z < order.idxOf x) : x ≤ y := by
  induction h with
  | nil => cases hx
  | @snoc order last _ _ hlast hpre hmin ih => grind

theorem waits_trans (hx : x ∈ order) (hE : TransGen E z x) : order.idxOf z < order.idxOf x := by
  induction hE with
  | single hE => exact h.waits hx hE
  | tail _ hE ih =>
    have hlt := h.waits hx hE
    grind

theorem waits_refl (hx : x ∈ order) (hE : ReflTransGen E z x) : order.idxOf z ≤ order.idxOf x := by
  obtain rfl | hE := reflTransGen_iff_eq_or_transGen.mp hE
  · exact le_rfl
  · exact (h.waits_trans hx hE).le

theorem mem_of_needed (hx : x ∈ order) (hE : ReflTransGen E z x) : z ∈ order :=
  idxOf_lt_length_iff.mp ((h.waits_refl hx hE).trans_lt (idxOf_lt_length_iff.mpr hx))

theorem exists_ready (hx : x ∈ order) (hy : y ∈ order)
    (hle : order.idxOf x ≤ order.idxOf y) : ∃ w, ReflTransGen E w y ∧ order.idxOf x ≤ order.idxOf w ∧ x ≤ w := by
  induction hn : order.idxOf y using Nat.strong_induction_on generalizing y with
  | h n ih =>
    by_cases hready : ∀ z, E z y → order.idxOf z < order.idxOf x
    · exact ⟨y, .refl, hle, h.least hx (h.nodes_of_mem hy) hle hready⟩
    grind [h.waits]

end

/-- Once `c` has run, all that `i` still waits for comes after `c`. -/
def Passed (E : α → α → Prop) (order : List α) (c : Option α) (i : α) : Prop :=
  ∀ z, ReflTransGen E z i → (∀ x ∈ c, order.idxOf x < order.idxOf z) → Since E c z

theorem passed_none (i : α) : Passed E order none i := fun _ _ _ => by simp [Since]

section Top

variable {c : Option α} {a b m : α}

section

variable (h : Greedy nodes E order)
include h

theorem since_idxOf (hx : x ∈ order) (hs : Since E c x) :
    ∀ y ∈ c, order.idxOf y < order.idxOf x := fun y hy => h.waits_trans hx (hs y hy)

theorem exists_top (hi : i ∈ order) (hs : Since E c i) : ∃ m, IsGreatest (Needs E c i) m := by
  have hfin : (Needs E c i).Finite := (finite_toSet order).subset fun u hu => h.mem_of_needed hi hu.2
  obtain ⟨m, hm, hmax⟩ := Set.exists_max_image (Needs E c i) id hfin ⟨i, hs, .refl⟩
  exact ⟨m, hm, hmax⟩

theorem passed_top (hi : i ∈ order) (hp : Passed E order c i)
    (hm : IsGreatest (Needs E c i) m) : Passed E order (some m) i := by
  rintro z hz hlt x ⟨⟩
  have hlt := hlt m rfl
  have hmo := h.mem_of_needed hi hm.1.2
  obtain ⟨w, hw, hpos, hmw⟩ := h.exists_ready hmo (h.mem_of_needed hi hz) hlt.le
  have hsince : Since E c w := hp w (hw.trans hz) fun x hx => (h.since_idxOf hmo hm.1.1 x hx).trans_le hpos
  obtain rfl : w = m := le_antisymm (hm.2 ⟨hsince, hw.trans hz⟩) hmw
  grind

theorem idxOf_lt_of_top (hi : i ∈ order) (hj : j ∈ order) (hp : Passed E order c i)
    (ha : IsGreatest (Needs E c i) a) (hb : IsGreatest (Needs E c j) b) (hab : a < b) :
    order.idxOf i < order.idxOf j := by
  by_contra hle
  have hbo := h.mem_of_needed hj hb.1.2
  obtain ⟨w, hw, hpos, hbw⟩ := h.exists_ready hbo hi ((h.waits_refl hj hb.1.2).trans (Nat.not_lt.mp hle))
  have hsince : Since E c w := hp w hw fun x hx => (h.since_idxOf hbo hb.1.1 x hx).trans_le hpos
  exact absurd (hbw.trans (ha.2 ⟨hsince, hw⟩)) (not_le.mpr hab)

end

end Top

variable {c : Option α}

section

variable (h : Greedy nodes E order)
include h

theorem idxOf_lt_of_ahead (hahead : Ahead E c i j) (hi : i ∈ order)
    (hj : j ∈ order) (hpi : Passed E order c i) (hpj : Passed E order c j) : order.idxOf i < order.idxOf j := by
  induction hahead with
  | first ha hb hab => exact h.idxOf_lt_of_top hi hj hpi ha hb hab
  | reached _ hb hne =>
    obtain rfl | hE := reflTransGen_iff_eq_or_transGen.mp hb.1.2
    · exact absurd rfl hne
    · exact h.waits_trans hj hE
  | next hmi hmj _ _ _ ih => grind [h.passed_top]

theorem ahead_total (hi : i ∈ order) (hj : j ∈ order) (hne : i ≠ j)
    (hsi : Since E c i) (hsj : Since E c j) : Ahead E c i j ∨ Ahead E c j i := by
  -- each shared greatest node runs later than the one before it
  induction hn : order.length - (c.map fun x => order.idxOf x + 1).getD 0 using Nat.strong_induction_on generalizing c with
  | h n ih =>
    obtain ⟨a, ha⟩ := h.exists_top hi hsi
    obtain ⟨b, hb⟩ := h.exists_top hj hsj
    obtain hab | rfl | hab := lt_trichotomy a b
    · exact .inl (.first ha hb hab)
    · by_cases hai : a = i
      · exact .inl (.reached (hai ▸ ha) (hai ▸ hb) hne)
      by_cases haj : a = j
      · exact .inr (.reached (haj ▸ hb) (haj ▸ ha) hne.symm)
      have hao := h.mem_of_needed hi ha.1.2
      have hc : (c.map fun x => order.idxOf x + 1).getD 0 ≤ order.idxOf a := by
        cases c with
        | none => exact Nat.zero_le _
        | some x => exact h.since_idxOf hao ha.1.1 x rfl
      have hrest : ∀ {v}, ReflTransGen E a v → a ≠ v → Since E (some a) v := by
        rintro v hav hv x ⟨⟩
        exact (reflTransGen_iff_eq_or_transGen.mp hav).resolve_left (Ne.symm hv)
      obtain hahead | hahead := ih _ (by grind) (hrest ha.1.2 hai) (hrest hb.1.2 haj) rfl
      · exact .inl (.next ha hb hai haj hahead)
      · exact .inr (.next hb ha haj hai hahead)
    · exact .inr (.first hb ha hab)

theorem idxOf_lt_iff_ahead (hi : i ∈ order) (hj : j ∈ order) (hne : i ≠ j) :
    order.idxOf i < order.idxOf j ↔ Ahead E none i j := by
  refine ⟨fun hlt => ?_, fun hahead => h.idxOf_lt_of_ahead hahead hi hj (passed_none i) (passed_none j)⟩
  obtain hahead | hahead := h.ahead_total hi hj hne (c := none) (by simp [Since]) (by simp [Since])
  · exact hahead
  · exact absurd hlt (Nat.lt_asymm (h.idxOf_lt_of_ahead hahead hj hi (passed_none j) (passed_none i)))

end

end Greedy

variable {β : Type}

theorem mem_iff_idxOf_lt [DecidableEq β] {before after : List β} {i k : β} (hn : (before ++ i :: after).Nodup) :
    k ∈ before ↔ (before ++ i :: after).idxOf k < (before ++ i :: after).idxOf i := by
  grind

theorem pair_sublist_iff [DecidableEq β] {order : List β} {i j : β} (hn : order.Nodup) :
    [i, j].Sublist order ↔ order.idxOf i < order.idxOf j ∧ j ∈ order := by
  grind [append_of_mem]

end TensorDE.Schedule
