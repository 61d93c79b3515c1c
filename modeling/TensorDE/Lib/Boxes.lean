import Mathlib.Tactic

namespace TensorDE

/-- A rectangle of the integer plane: the points from `x0` and `y0` on, before `x1` and `y1`. -/
structure Box where
  x0 : Int
  y0 : Int
  x1 : Int
  y1 : Int
deriving DecidableEq

namespace Box

def Holds (b : Box) (p : Int × Int) : Prop := (b.x0 ≤ p.1 ∧ p.1 < b.x1) ∧ b.y0 ≤ p.2 ∧ p.2 < b.y1

instance (b : Box) (p : Int × Int) : Decidable (b.Holds p) := inferInstanceAs (Decidable ((_ ∧ _) ∧ _ ∧ _))

structure Proper (b : Box) : Prop where
  width : b.x0 < b.x1
  height : b.y0 < b.y1

def Apart (b c : Box) : Prop := ∀ p, ¬ (b.Holds p ∧ c.Holds p)

variable {b c removed : Box} {bs cs : List Box}

/-- How many of the boxes hold a point. -/
def cover (bs : List Box) (p : Int × Int) : Nat := bs.countP fun b => decide (b.Holds p)

@[simp] theorem cover_nil (p : Int × Int) : cover [] p = 0 := rfl

@[simp] theorem cover_cons (b : Box) (bs : List Box) (p : Int × Int) :
    cover (b :: bs) p = (if b.Holds p then 1 else 0) + cover bs p := by
  grind [cover]

@[simp] theorem cover_append (bs cs : List Box) (p : Int × Int) : cover (bs ++ cs) p = cover bs p + cover cs p :=
  List.countP_append

variable {p : Int × Int}

theorem cover_pos : 0 < cover bs p ↔ ∃ b ∈ bs, b.Holds p := by
  simp [cover]

theorem pairwise_apart (h : ∀ p, cover bs p ≤ 1) : bs.Pairwise Apart := by
  induction bs with
  | nil => exact .nil
  | cons b bs ih =>
    refine .cons ?_ (ih fun p => ?_)
    · rintro c hc p ⟨hb, hp⟩
      have hone := h p
      grind [cover_pos, cover_cons]
    · exact le_trans (Nat.le_add_left _ _) (cover_cons b bs p ▸ h p)

def inter (b c : Box) : Box := ⟨max b.x0 c.x0, max b.y0 c.y0, min b.x1 c.x1, min b.y1 c.y1⟩

theorem inter_holds : (b.inter c).Holds p ↔ b.Holds p ∧ c.Holds p := by
  simp only [Holds, inter]
  omega

theorem apart_of_inter (h : ¬ (b.inter c).Proper) : Apart b c := by
  intro p hp
  obtain ⟨⟨hx, hx'⟩, hy, hy'⟩ := (inter_holds).mpr hp
  exact h ⟨by omega, by omega⟩

theorem apart_iff : Apart b c ↔ ¬ (b.inter c).Proper := by
  refine ⟨fun h hproper => ?_, apart_of_inter⟩
  -- the corner of what they have in common
  have hcorner : (b.inter c).Holds ((b.inter c).x0, (b.inter c).y0) := ⟨⟨le_rfl, hproper.width⟩, le_rfl, hproper.height⟩
  exact h _ ((inter_holds).mp hcorner)

theorem Apart.symm (h : Apart b c) : Apart c b := fun p hp => h p ⟨hp.2, hp.1⟩

/-- A box without a part of it: the strips above and below, and the rests at the left and at the right. -/
def strips (b o : Box) : List Box :=
  (if b.y0 < o.y0 then [{ b with y1 := o.y0 }] else []) ++
    ((if o.y1 < b.y1 then [{ b with y0 := o.y1 }] else []) ++
      ((if b.x0 < o.x0 then [⟨b.x0, o.y0, o.x0, o.y1⟩] else []) ++
        (if o.x1 < b.x1 then [⟨o.x1, o.y0, b.x1, o.y1⟩] else [])))

instance (b : Box) : Decidable b.Proper :=
  decidable_of_iff (b.x0 < b.x1 ∧ b.y0 < b.y1) ⟨fun h => ⟨h.1, h.2⟩, fun h => ⟨h.width, h.height⟩⟩

def without (b removed : Box) : List Box :=
  if (b.inter removed).Proper then b.strips (b.inter removed) else [b]

theorem cover_ite (c : Prop) [Decidable c] (b : Box) (p : Int × Int) :
    cover (if c then [b] else []) p = if c ∧ b.Holds p then 1 else 0 := by
  by_cases h : c <;> simp [h]

theorem cover_strips {o : Box} (ho : o.Proper) (hx : b.x0 ≤ o.x0 ∧ o.x1 ≤ b.x1) (hy : b.y0 ≤ o.y0 ∧ o.y1 ≤ b.y1)
    (p : Int × Int) : cover (b.strips o) p = if b.Holds p ∧ ¬ o.Holds p then 1 else 0 := by
  obtain ⟨hw, hh⟩ := ho
  simp only [strips, cover_append, cover_ite, Holds]
  -- The point is above the part, below it, or beside it.
  grind -linarith

theorem cover_without (b removed : Box) (p : Int × Int) :
    cover (b.without removed) p = if b.Holds p ∧ ¬ removed.Holds p then 1 else 0 := by
  unfold without
  split
  · rename_i hmeet
    have hinter : (b.Holds p ∧ ¬ (b.inter removed).Holds p) ↔ b.Holds p ∧ ¬ removed.Holds p := by
      rw [inter_holds]
      tauto
    rw [cover_strips hmeet ⟨le_max_left _ _, min_le_left _ _⟩ ⟨le_max_left _ _, min_le_left _ _⟩ p]
    simp only [hinter]
  · rename_i hempty
    have hapart := apart_of_inter hempty
    have hiff : (b.Holds p ∧ ¬ removed.Holds p) ↔ b.Holds p := ⟨And.left, fun h => ⟨h, fun hr => hapart p ⟨h, hr⟩⟩⟩
    simp only [hiff, cover_cons, cover_nil, Nat.add_zero]

theorem cover_flatMap_without (bs : List Box) (removed : Box) (p : Int × Int) :
    cover (bs.flatMap fun b => b.without removed) p = if removed.Holds p then 0 else cover bs p := by
  induction bs with
  | nil => simp
  | cons b bs ih => grind [cover_append, cover_without, cover_cons]

section Rounding

variable {f : Int → Int}

def map (f : Int → Int) (b : Box) : Box := ⟨f b.x0, f b.y0, f b.x1, f b.y1⟩

section

variable (hf : Monotone f)
include hf

/-- The last point that is not taken beyond `p`. -/
theorem exists_last {lo hi p : Int} (hlo : f lo ≤ p) (hhi : p < f hi) :
    ∃ q, lo ≤ q ∧ q < hi ∧ f q ≤ p ∧ p < f (q + 1) := by
  obtain ⟨q, ⟨hq, hle⟩, hmax⟩ := Int.exists_greatest_of_bdd (P := fun q => lo ≤ q ∧ f q ≤ p)
    ⟨hi, fun q hq => le_of_lt (lt_of_not_ge fun hge => absurd (hf hge) (by omega))⟩ ⟨lo, le_rfl, hlo⟩
  have hnext : p < f (q + 1) := lt_of_not_ge fun hge => by
    grind
  exact ⟨q, hq, lt_of_not_ge fun hge => absurd (hf hge) (by omega), hle, hnext⟩

theorem map_holds {p : Int × Int} (h : (b.map f).Holds p) :
    ∃ q, b.Holds q ∧ ∀ c : Box, c.Holds q → (c.map f).Holds p := by
  obtain ⟨⟨hx, hx'⟩, hy, hy'⟩ := h
  obtain ⟨qx, hbx, hbx', hlex, hltx⟩ := exists_last hf hx hx'
  obtain ⟨qy, hby, hby', hley, hlty⟩ := exists_last hf hy hy'
  refine ⟨(qx, qy), ⟨⟨hbx, hbx'⟩, hby, hby'⟩, fun c ⟨⟨hcx, hcx'⟩, hcy, hcy'⟩ => ?_⟩
  exact ⟨⟨(hf hcx).trans hlex, hltx.trans_le (hf (Int.add_one_le_iff.mpr hcx'))⟩, (hf hcy).trans hley,
    hlty.trans_le (hf (Int.add_one_le_iff.mpr hcy'))⟩

theorem map_apart (h : Apart b c) : Apart (b.map f) (c.map f) := by
  rintro p ⟨⟨⟨hbx, hbx'⟩, hby, hby'⟩, ⟨hcx, hcx'⟩, hcy, hcy'⟩
  have hcross : ∀ {u v q : Int}, f u ≤ q → q < f v → u < v := fun hu hv =>
    lt_of_not_ge fun hge => absurd (hf hge) (by omega)
  refine (apart_iff).mp h ⟨?_, ?_⟩
  · exact max_lt (lt_min (hcross hbx hbx') (hcross hbx hcx')) (lt_min (hcross hcx hbx') (hcross hcx hcx'))
  · exact max_lt (lt_min (hcross hby hby') (hcross hby hcy')) (lt_min (hcross hcy hby') (hcross hcy hcy'))

theorem map_tiles {ι : Type*} {tiles : ι → Box} {area : Box}
    (happart : ∀ i j, i ≠ j → Apart (tiles i) (tiles j)) (hcover : ∀ p, area.Holds p ↔ ∃ i, (tiles i).Holds p) :
    (∀ i j, i ≠ j → Apart ((tiles i).map f) ((tiles j).map f)) ∧
      ∀ p, (area.map f).Holds p ↔ ∃ i, ((tiles i).map f).Holds p := by
  grind [map_apart, map_holds]

end

end Rounding

end Box

end TensorDE
