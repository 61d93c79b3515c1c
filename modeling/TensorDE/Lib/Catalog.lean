import Mathlib.Tactic

namespace TensorDE.Catalog

open List

/-! Items that are known by their names, up to the order they are in. -/

variable {E N : Type} [DecidableEq N] (name : E → N) (n : N)

def occurs (es : List E) : Nat := es.countP fun e => name e = n

def drop (es : List E) : List E := es.filter fun e => name e ≠ n

/-- What has the name `n` gives its place up for an item, which may have another name. -/
def replace (e : E) (es : List E) : List E := drop name n es ++ [e]

def put (e : E) (es : List E) : List E := replace name (name e) e es

def drops (ns : List N) (es : List E) : List E := ns.foldl (fun es n => drop name n es) es

def puts (as es : List E) : List E := as.foldl (fun es a => put name a es) es

variable {name} {n m : N} {e a old : E} {es es' as : List E} {ns : List N}

section Count

theorem occurs_eq_zero : occurs name n es = 0 ↔ ∀ e ∈ es, name e ≠ n := by
  simp [occurs]

theorem occurs_pos : 0 < occurs name n es ↔ ∃ e ∈ es, name e = n := by
  simp [occurs]

theorem occurs_congr (h : es.map name = es'.map name) : occurs name n es = occurs name n es' := by
  have hmap : ∀ xs : List E, occurs name n xs = (xs.map name).countP fun m => m = n := fun xs => by
    rw [countP_map]
    rfl
  rw [hmap, hmap, h]

theorem occurs_perm (h : es.Perm es') : occurs name n es = occurs name n es' := h.countP_eq _

@[simp] theorem occurs_append (es es' : List E) : occurs name n (es ++ es') = occurs name n es + occurs name n es' :=
  countP_append

theorem occurs_drop (h : m ≠ n) (es : List E) : occurs name m (drop name n es) = occurs name m es := by
  grind [occurs, drop, countP_filter]

theorem occurs_replace (hm : m ≠ n) (he : m ≠ name e) (es : List E) :
    occurs name m (replace name n e es) = occurs name m es := by
  grind [occurs_eq_zero, replace, occurs_append, occurs_drop]

end Count

section Perm

section

variable (h : es.Perm es')
include h

theorem drop_perm : (drop name n es).Perm (drop name n es') := h.filter _

theorem replace_perm : (replace name n e es).Perm (replace name n e es') :=
  (drop_perm h).append_right [e]

theorem put_perm : (put name e es).Perm (put name e es') := replace_perm h

theorem drops_perm : (drops name ns es).Perm (drops name ns es') := by
  induction ns generalizing es es' with
  | nil => exact h
  | cons n ns ih => exact ih (drop_perm h)

theorem puts_perm : (puts name as es).Perm (puts name as es') := by
  induction as generalizing es es' with
  | nil => exact h
  | cons a as ih => exact ih (put_perm h)

end

end Perm

section Absent

theorem drop_absent (h : occurs name n es = 0) : drop name n es = es := by
  apply filter_eq_self.mpr
  intro e he
  exact decide_eq_true (occurs_eq_zero.mp h e he)

theorem replace_absent (h : occurs name n es = 0) : replace name n e es = es ++ [e] := by
  rw [replace, drop_absent h]

end Absent

section Place

theorem drop_at {front back : List E} (h : occurs name (name old) (front ++ old :: back) ≤ 1) :
    drop name (name old) (front ++ old :: back) = front ++ back := by
  have hself : occurs name (name old) [old] = 1 := by simp [occurs]
  have hsplit : front ++ old :: back = front ++ ([old] ++ back) := rfl
  rw [hsplit, occurs_append, occurs_append, hself] at h
  have hfront : drop name (name old) front = front := drop_absent (by omega)
  have hback : drop name (name old) back = back := drop_absent (by omega)
  grind [drop]

variable {i : Nat}

theorem around (hi : es[i]? = some old) : ∃ front back, es = front ++ old :: back ∧ front.length = i := by
  obtain ⟨hlt, rfl⟩ := List.getElem?_eq_some_iff.mp hi
  refine ⟨es.take i, es.drop (i + 1), ?_, length_take_of_le (Nat.le_of_lt hlt)⟩
  rw [cons_getElem_drop_succ, take_append_drop]

theorem unique_at {i j : Nat} (h : occurs name n es ≤ 1) (hi : es[i]? = some old) (hj : es[j]? = some e)
    (hold : name old = n) (he : name e = n) : i = j := by
  obtain ⟨front, back, rfl, rfl⟩ := around hi
  grind [occurs]

theorem set_perm_replace (hi : es[i]? = some old) (h : occurs name (name old) es ≤ 1) :
    (es.set i e).Perm (replace name (name old) e es) := by
  obtain ⟨front, back, rfl, rfl⟩ := around hi
  have hset : (front ++ old :: back).set front.length e = front ++ e :: back := by simp
  rw [hset, replace, drop_at h, append_assoc]
  exact (perm_append_singleton e back).symm.append_left front

theorem eraseIdx_eq_drop (hi : es[i]? = some old) (h : occurs name (name old) es ≤ 1) :
    es.eraseIdx i = drop name (name old) es := by
  obtain ⟨front, back, rfl, rfl⟩ := around hi
  grind [drop_at]

end Place

section Commute

theorem drop_comm (es : List E) : drop name n (drop name m es) = drop name m (drop name n es) :=
  filter_comm _ _ es

theorem drop_replace (h : name e ≠ m) : drop name m (replace name n e es) = replace name n e (drop name m es) := by
  grind [replace, drop_comm, drop]

theorem drop_put (h : name a ≠ n) : drop name n (put name a es) = put name a (drop name n es) := drop_replace h

theorem put_replace (hn : name a ≠ n) (he : name a ≠ name e) :
    (put name a (replace name n e es)).Perm (replace name n e (put name a es)) := by
  rw [put, replace, drop_replace he.symm, put, replace, replace, drop_replace hn, replace, drop_comm]
  simp only [append_assoc]
  exact (List.Perm.swap a e []).append_left _

theorem drops_replace (h : name e ∉ ns) : drops name ns (replace name n e es) = replace name n e (drops name ns es) := by
  induction ns generalizing es with
  | nil => rfl
  | cons m ns ih => grind [drops, drop_replace]

theorem puts_replace (h : ∀ a ∈ as, name a ≠ n ∧ name a ≠ name e) :
    (puts name as (replace name n e es)).Perm (replace name n e (puts name as es)) := by
  induction as generalizing es with
  | nil => exact List.Perm.refl _
  | cons a as ih =>
    obtain ⟨hn, he⟩ := h a mem_cons_self
    exact (puts_perm (put_replace hn he)).trans (ih fun b hb => h b (mem_cons_of_mem _ hb))

theorem drop_puts (h : ∀ a ∈ as, name a ≠ n) : drop name n (puts name as es) = puts name as (drop name n es) := by
  induction as generalizing es with
  | nil => rfl
  | cons a as ih =>
    have hput : drop name n (put name a es) = put name a (drop name n es) := drop_put (h a mem_cons_self)
    grind [puts]

theorem occurs_drops (h : m ∉ ns) (es : List E) : occurs name m (drops name ns es) = occurs name m es := by
  induction ns generalizing es with
  | nil => rfl
  | cons n ns ih =>
    have hne : m ≠ n := fun he => h (he ▸ mem_cons_self)
    have hrest := ih (fun hmem => h (mem_cons_of_mem _ hmem)) (drop name n es)
    exact hrest.trans (occurs_drop hne es)

theorem occurs_puts (h : ∀ a ∈ as, name a ≠ m) (es : List E) : occurs name m (puts name as es) = occurs name m es := by
  induction as generalizing es with
  | nil => rfl
  | cons a as ih =>
    have hne := (h a mem_cons_self).symm
    have hrest := ih (fun b hb => h b (mem_cons_of_mem _ hb)) (put name a es)
    exact hrest.trans (occurs_replace hne hne es)

theorem drops_eq_filter (ns : List N) (es : List E) : drops name ns es = es.filter fun e => name e ∉ ns := by
  induction ns generalizing es with
  | nil => simp [drops]
  | cons n ns ih =>
    have hrest : drops name (n :: ns) es = drops name ns (drop name n es) := rfl
    rw [hrest, ih, drop, filter_filter]
    grind

theorem occurs_drops_le (n : N) (ns : List N) (es : List E) : occurs name n (drops name ns es) ≤ occurs name n es := by
  rw [drops_eq_filter]
  exact filter_sublist.countP_le

end Commute

variable {positions : List Nat}

theorem filter_zipIdx {p : E → Bool} (h : ∀ i e, es[i]? = some e → (i ∉ positions ↔ p e = true)) :
    (es.zipIdx.filter fun pair => pair.2 ∉ positions).map Prod.fst = es.filter p := by
  grind [filter_congr, zipIdx_map_fst]

theorem removed_eq_drops (h : ∀ i e, es[i]? = some e → (i ∈ positions ↔ name e ∈ ns)) :
    (es.zipIdx.filter fun pair => pair.2 ∉ positions).map Prod.fst = drops name ns es := by
  rw [drops_eq_filter]
  apply filter_zipIdx
  grind

end TensorDE.Catalog
