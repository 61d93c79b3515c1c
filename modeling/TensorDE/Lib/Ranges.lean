import Mathlib.Tactic
import Mathlib.Data.List.Sort

namespace TensorDE.Ranges

open List

/-- The half-open range `start..stop`. -/
structure Range where
  start : Nat
  stop : Nat
deriving DecidableEq

namespace Range

variable (r : Range)

def Holds (x : Nat) : Prop := r.start ≤ x ∧ x < r.stop

instance (r : Range) (x : Nat) : Decidable (r.Holds x) := inferInstanceAs (Decidable (_ ∧ _))

def size : Nat := r.stop - r.start

def Nonempty : Prop := r.start < r.stop

instance (r : Range) : Decidable r.Nonempty := inferInstanceAs (Decidable (_ < _))

def Apart (r t : Range) : Prop := ∀ x, ¬ (r.Holds x ∧ t.Holds x)

end Range

open Range

/-- How many of the ranges hold `x`. Nothing is lost or doubled by a step that keeps this number. -/
def cover (ranges : List Range) (x : Nat) : Nat := ranges.countP fun r => decide (r.Holds x)

variable {r t : Range} {rs ts : List Range} (x : Nat)

@[simp] theorem cover_nil : cover [] x = 0 := rfl

@[simp] theorem cover_cons (r : Range) (rs : List Range) (x : Nat) :
    cover (r :: rs) x = (if r.Holds x then 1 else 0) + cover rs x := by
  grind [cover]

@[simp] theorem cover_append (rs ts : List Range) (x : Nat) : cover (rs ++ ts) x = cover rs x + cover ts x :=
  countP_append

theorem cover_perm (h : rs.Perm ts) (x : Nat) : cover rs x = cover ts x := h.countP_eq _

theorem cover_eraseIdx {index : Nat} (h : rs[index]? = some r) (x : Nat) :
    cover rs x = (if r.Holds x then 1 else 0) + cover (rs.eraseIdx index) x := by
  obtain ⟨hlt, rfl⟩ := List.getElem?_eq_some_iff.mp h
  rw [← cover_cons]
  exact cover_perm (getElem_cons_eraseIdx_perm hlt).symm x

theorem cover_cut {start mid stop : Nat} (h : start ≤ mid) (h' : mid ≤ stop) (x : Nat) :
    cover [⟨start, stop⟩] x = cover [⟨start, mid⟩] x + cover [⟨mid, stop⟩] x := by
  grind [Holds, TensorDE.Ranges.cover]

variable {start stop : Nat}

theorem cover_empty (h : stop ≤ start) (x : Nat) : cover [⟨start, stop⟩] x = 0 := by
  have hno : ¬ (start ≤ x ∧ x < stop) := by omega
  simp [Holds, hno]

theorem cover_ite (start stop x : Nat) :
    cover (if start < stop then [⟨start, stop⟩] else []) x = cover [⟨start, stop⟩] x := by
  split
  · rfl
  · exact (cover_empty (Nat.le_of_not_lt ‹_›) x).symm

theorem nonempty_of_mem_ite (h : r ∈ if start < stop then [(⟨start, stop⟩ : Range)] else []) : r.Nonempty := by
  split at h
  · exact mem_singleton.mp h ▸ ‹_›
  · cases h

theorem cover_pos {x : Nat} : 0 < cover rs x ↔ ∃ r ∈ rs, r.Holds x := by
  simp [cover]

theorem pairwise_apart (h : ∀ x, cover rs x ≤ 1) : rs.Pairwise Apart := by
  induction rs with
  | nil => exact List.Pairwise.nil
  | cons r rs ih =>
    refine List.Pairwise.cons ?_ (ih fun x => ?_)
    · rintro t ht x ⟨hr, hx⟩
      have hone := h x
      grind [cover_pos, cover_cons]
    · exact le_trans (Nat.le_add_left _ _) (cover_cons r rs x ▸ h x)

/-- Ranges in increasing order with room between any two of them. -/
def Gapped (rs : List Range) : Prop := rs.Pairwise fun a b => a.stop < b.start

theorem Apart.stop_le (h : Apart r t) (hle : r.start ≤ t.start) (ht : t.Nonempty) : r.stop ≤ t.start := by
  by_contra hlt
  exact h t.start ⟨⟨hle, by omega⟩, le_rfl, ht⟩

theorem sum_size_le {limit base : Nat} (hne : ∀ r ∈ rs, r.Nonempty) (hgap : Gapped rs)
    (hstart : ∀ r ∈ rs, base ≤ r.start) (hstop : ∀ r ∈ rs, r.stop ≤ limit) (hbase : base ≤ limit) :
    (rs.map size).sum + base ≤ limit := by
  induction rs generalizing base with
  | nil => simpa using hbase
  | cons r rs ih =>
    obtain ⟨hlt, hrest⟩ := pairwise_cons.mp hgap
    grind [size, TensorDE.Ranges.Gapped]

/-- Some range of the list holds `x`. -/
def Held (rs : List Range) (x : Nat) : Prop := ∃ r ∈ rs, r.Holds x

@[simp] theorem held_nil : ¬ Held [] x := by simp [Held]

@[simp] theorem held_append (rs ts : List Range) (x : Nat) : Held (rs ++ ts) x ↔ Held rs x ∨ Held ts x := by
  simp [Held, or_and_right, exists_or]

@[simp] theorem held_singleton (r : Range) (x : Nat) : Held [r] x ↔ r.Holds x := by simp [Held]

theorem held_cons (r : Range) (rs : List Range) (x : Nat) : Held (r :: rs) x ↔ r.Holds x ∨ Held rs x := by simp [Held]

theorem held_perm (h : rs.Perm ts) (x : Nat) : Held rs x ↔ Held ts x :=
  exists_congr fun _ => and_congr_left fun _ => h.mem_iff

theorem Gapped.not_held_stop (h : Gapped rs) (hne : ∀ r ∈ rs, r.Nonempty) (hr : r ∈ rs) : ¬ Held rs r.stop := by
  rintro ⟨t, ht, hstart, hstop⟩
  obtain ⟨i, hi, rfl⟩ := mem_iff_getElem.mp hr
  obtain ⟨j, hj, rfl⟩ := mem_iff_getElem.mp ht
  have hgap := pairwise_iff_getElem.mp h
  grind [TensorDE.Ranges.Range.Nonempty]

theorem Gapped.length_le (h : Gapped rs) (hne : ∀ r ∈ rs, r.Nonempty) (hsame : ∀ x, Held ts x ↔ Held rs x) :
    rs.length ≤ ts.length := by
  have hstart : ∀ i : Fin rs.length, ∃ j : Fin ts.length, ts[j].Holds rs[i].start := by
    intro i
    have hmem : rs[i] ∈ rs := getElem_mem i.isLt
    obtain ⟨t, ht, hholds⟩ := (hsame rs[i].start).mpr ⟨rs[i], hmem, le_rfl, hne _ hmem⟩
    obtain ⟨j, hj, rfl⟩ := mem_iff_getElem.mp ht
    exact ⟨⟨j, hj⟩, hholds⟩
  choose pick hpick using hstart
  -- A range that holds two starts also holds the end between them.
  have hapart : ∀ i j : Fin rs.length, i < j → pick i ≠ pick j := by
    intro i j hlt heq
    have hgap : rs[i].stop < rs[j].start := pairwise_iff_getElem.mp h i j i.isLt j.isLt hlt
    have hmem : rs[i] ∈ rs := getElem_mem i.isLt
    have hi : rs[i].start < rs[i].stop := hne _ hmem
    have hlow := (hpick i).1
    have hhigh := (heq ▸ hpick j).2
    refine h.not_held_stop hne hmem ((hsame _).mp ⟨ts[pick i], getElem_mem _, ?_, ?_⟩)
    · exact hlow.trans hi.le
    · exact hgap.trans hhigh
  have hinj : Function.Injective pick := by
    intro i j heq
    obtain hlt | rfl | hlt := lt_trichotomy i j
    · exact absurd heq (hapart i j hlt)
    · rfl
    · exact absurd heq.symm (hapart j i hlt)
  simpa using Fintype.card_le_of_injective pick hinj

/-- Ranges with room between them are told by what they hold. -/
theorem Gapped.ext (hrs : Gapped rs) (hts : Gapped ts) (hne : ∀ r ∈ rs, r.Nonempty) (hne' : ∀ t ∈ ts, t.Nonempty)
    (hsame : ∀ x, Held rs x ↔ Held ts x) : rs = ts := by
  induction rs generalizing ts with
  | nil =>
    cases ts with
    | nil => rfl
    | cons t ts =>
      have ht := hne' t (by simp)
      obtain ⟨r, hr, -⟩ := (hsame t.start).mpr ⟨t, by simp, le_rfl, ht⟩
      cases hr
  | cons r rs ih =>
    cases ts with
    | nil => grind [TensorDE.Ranges.Gapped, TensorDE.Ranges.Held]
    | cons t ts =>
      obtain ⟨hrlt, hrs'⟩ := pairwise_cons.mp hrs
      obtain ⟨htlt, hts'⟩ := pairwise_cons.mp hts
      have hr : r.start < r.stop := hne r (by simp)
      have ht : t.start < t.stop := hne' t (by simp)
      have hstart : r.start = t.start := by
        obtain ⟨a, ha, ha1, -⟩ := (hsame r.start).mp ⟨r, by simp, le_rfl, hr⟩
        obtain ⟨b, hb, hb1, -⟩ := (hsame t.start).mpr ⟨t, by simp, le_rfl, ht⟩
        have hle : t.start ≤ r.start := by
          rcases mem_cons.mp ha with rfl | ha
          · exact ha1
          · have := htlt a ha
            omega
        have hge : r.start ≤ t.start := by
          rcases mem_cons.mp hb with rfl | hb
          · exact hb1
          · have := hrlt b hb
            omega
        omega
      have hstop : r.stop = t.stop := by
        have hr' := hrs.not_held_stop hne (r := r) (by simp)
        have ht' := hts.not_held_stop hne' (r := t) (by simp)
        rcases Nat.lt_trichotomy r.stop t.stop with hlt | heq | hlt
        · exact absurd ((hsame r.stop).mpr ⟨t, by simp, by omega, hlt⟩) hr'
        · exact heq
        · exact absurd ((hsame t.stop).mp ⟨r, by simp, by omega, hlt⟩) ht'
      obtain rfl : r = t := by
        cases r
        simp_all
      rw [ih hrs' hts' (fun a ha => hne a (by simp [ha])) (fun a ha => hne' a (by simp [ha])) fun x => ?_]
      have hbehind : ∀ {l : List Range}, (∀ a ∈ l, r.stop < a.start) → (Held l x ↔ Held (r :: l) x ∧ r.stop ≤ x) := by
        intro l hl
        rw [held_cons]
        constructor
        · rintro ⟨a, ha, hax⟩
          have := hl a ha
          exact ⟨.inr ⟨a, ha, hax⟩, by have := hax.1; omega⟩
        · rintro ⟨hx | hx, hle⟩
          · exact absurd hx.2 (by omega)
          · exact hx
      rw [hbehind hrlt, hbehind htlt, hsame]

/-- The sizes add up to the numbers held, each as often as it is held. -/
theorem sum_size_eq {limit : Nat} (h : ∀ r ∈ rs, r.stop ≤ limit) :
    (rs.map size).sum = ∑ x ∈ Finset.range limit, cover rs x := by
  induction rs with
  | nil => simp
  | cons r rs ih =>
    simp only [mem_cons, forall_eq_or_imp] at h
    have hone : ∑ x ∈ Finset.range limit, (if r.Holds x then 1 else 0) = r.size := by
      have hfilter : (Finset.range limit).filter (fun x => r.Holds x) = Finset.Ico r.start r.stop := by
        ext x
        rw [Finset.mem_filter, Finset.mem_range, Finset.mem_Ico]
        exact ⟨And.right, fun hx => ⟨hx.2.trans_le h.1, hx⟩⟩
      rw [← Finset.card_filter, hfilter, Nat.card_Ico, Range.size]
    simp only [cover_cons, Finset.sum_add_distrib, hone, map_cons, sum_cons, ih h.2]

end TensorDE.Ranges
