import TensorDE.Lib.Schedule
import TensorDE.Renderer.RenderGraph

set_option linter.dupNamespace false

namespace TensorDE.Renderer.RenderGraph

open Effect Maps Sets Schedule List

variable (edges : List Edge)

def Joins (a b : Nat) : Prop := toLex (a, b) ∈ edges

def successorsOf (v : Nat) : List Nat :=
  (edges.filter fun e => (ofLex e).1 = v).map fun e => (ofLex e).2

/-- How many edges lead to `v` from a pass that has not run yet. -/
def waitingFor (ordered : List Nat) (v : Nat) : Nat :=
  edges.countP fun e => (ofLex e).2 = v ∧ (ofLex e).1 ∉ ordered

section Count

variable {edges : List Edge} {successors : List (List Nat)} {indegrees : List Nat} {n : Nat}

theorem mem_successorsOf {v w : Nat} : w ∈ successorsOf edges v ↔ Joins edges v w := by
  simp only [successorsOf, mem_map, mem_filter, decide_eq_true_eq]
  constructor
  · rintro ⟨e, ⟨he, rfl⟩, rfl⟩
    exact he
  · intro he
    exact ⟨_, ⟨he, rfl⟩, rfl⟩

theorem nodup_successorsOf (h : edges.Nodup) (v : Nat) : (successorsOf edges v).Nodup := by
  refine (nodup_map_iff_inj_on (h.filter _)).mpr ?_
  simp only [mem_filter, decide_eq_true_eq]
  rintro e ⟨_, he⟩ f ⟨_, hf⟩ hef
  exact ofLex.injective (Prod.ext (he.trans hf.symm) hef)

variable {ordered : List Nat}

theorem waitingFor_eq_zero {v : Nat} : waitingFor edges ordered v = 0 ↔ ∀ u, Joins edges u v → u ∈ ordered := by
  simp only [waitingFor, countP_eq_zero, decide_eq_true_eq, not_and, not_not]
  constructor
  · exact fun h u hu => h _ hu rfl
  · rintro h e he rfl
    exact h _ he

theorem waitingFor_snoc (edges : List Edge) {x : Nat} (hx : x ∉ ordered) (v : Nat) :
    waitingFor edges ordered v = waitingFor edges (ordered ++ [x]) v + (successorsOf edges x).count v := by
  induction edges with
  | nil => rfl
  | cons e rest ih => grind [waitingFor, successorsOf]

theorem countEdges_ends (hs : successors.length = n) (hi : indegrees.length = n)
    (hn : ∀ e ∈ edges, (ofLex e).1 < n ∧ (ofLex e).2 < n) :
    Ends (fun counted => (∀ v, counted.1[v]? = successors[v]?.map (· ++ successorsOf edges v)) ∧
      ∀ v, counted.2[v]? = indegrees[v]?.map (· + waitingFor edges [] v)) (countEdges successors indegrees edges) := by
  induction edges generalizing successors indegrees with
  | nil => exact ⟨fun v => by simp [successorsOf], fun v => by simp [waitingFor]⟩
  | cons e rest ih =>
    simp only [mem_cons, forall_eq_or_imp] at hn
    obtain ⟨⟨hfst, hsnd⟩, hrest⟩ := hn
    rw [countEdges]
    split
    · trivial
    have hget : successors[(ofLex e).1]? = some (successors[(ofLex e).1]) := getElem?_eq_getElem (by omega)
    have hget' : indegrees[(ofLex e).2]? = some (indegrees[(ofLex e).2]) := getElem?_eq_getElem (by omega)
    rw [hget, hget']
    refine (ih (by simpa using hs) (by simpa using hi) hrest).mono fun counted hcounted => ⟨fun v => ?_, fun v => ?_⟩
    · grind [successorsOf]
    grind [waitingFor]

end Count

theorem releaseSuccessors_ends {indegrees : List Nat} {ready : OrdSet Nat} {after : List Nat} (hn : after.Nodup)
    (hpos : ∀ s ∈ after, ∃ d, indegrees[s]? = some (d + 1)) :
    Ends (fun released => (∀ v, released.1[v]? = indegrees[v]?.map (· - if v ∈ after then 1 else 0)) ∧
      ∀ v, v ∈ released.2 ↔ v ∈ ready ∨ v ∈ after ∧ indegrees[v]? = some 1) (releaseSuccessors indegrees ready after) := by
  induction after generalizing indegrees ready with
  | nil => exact ⟨fun v => by simp, fun v => by simp⟩
  | cons s rest ih =>
    obtain ⟨hs, hrest⟩ := nodup_cons.mp hn
    simp only [mem_cons, forall_eq_or_imp] at hpos
    obtain ⟨⟨d, hd⟩, hpos⟩ := hpos
    have hlt := (List.getElem?_eq_some_iff.mp hd).1
    have hset : ∀ v, v ≠ s → (indegrees.set s d)[v]? = indegrees[v]? := fun v hv => getElem?_set_ne (Ne.symm hv)
    have hkeep : ∀ t ∈ rest, ∃ d', (indegrees.set s d)[t]? = some (d' + 1) := by
      intro t ht
      rw [hset t fun h => hs (h ▸ ht)]
      exact hpos t ht
    simp only [releaseSuccessors, hd]
    refine (ih hrest hkeep).mono fun released hreleased => ⟨fun v => ?_, fun v => ?_⟩
    · rw [hreleased.1]
      by_cases hv : v = s
      · subst hv
        rw [getElem?_set_self hlt, hd]
        simp [hs]
      · simp [hset v hv, hv]
    · rw [hreleased.2]
      by_cases hv : v = s
      · subst hv
        by_cases hzero : d = 0 <;> simp [hzero, hd, hs]
      · rw [hset v hv]
        by_cases hzero : d = 0 <;> simp [hzero, hv]

section Drain

variable {n : Nat} {edges : List Edge} {successors : List (List Nat)} {indegrees : List Nat} {ready : OrdSet Nat}
  {ordered : List Nat}

/-- The state between two rounds of the loop. -/
structure Working (n : Nat) (edges : List Edge) (indegrees : List Nat) (ready : OrdSet Nat) (ordered : List Nat) :
    Prop where
  greedy : Greedy (· < n) (Joins edges) ordered
  waiting : ∀ v < n, indegrees[v]? = some (waitingFor edges ordered v)
  ready : ∀ v, v ∈ ready ↔ v < n ∧ v ∉ ordered ∧ ∀ u, Joins edges u v → u ∈ ordered

theorem Working.length_le (h : Working n edges indegrees ready ordered) : ordered.length ≤ n := by
  have hsub : ordered ⊆ range n := fun v hv => mem_range.mpr (h.greedy.nodes_of_mem hv)
  simpa using (h.greedy.nodup.subperm hsub).length_le

theorem Working.round (h : Working n edges indegrees ready ordered) (hnodup : edges.Nodup)
    (hn : ∀ e ∈ edges, (ofLex e).1 < n ∧ (ofLex e).2 < n) {x : Nat} {ready' : OrdSet Nat}
    (hpop : ready.popFirst = some (x, ready')) :
    Ends (fun released => Working n edges released.1 released.2 (ordered ++ [x]))
      (releaseSuccessors indegrees ready' (successorsOf edges x)) := by
  obtain ⟨hmem, hmin, hrest⟩ := OrdSet.popFirst_some hpop
  obtain ⟨hx, hnew, hpre⟩ := (h.ready x).mp hmem
  have hgreedy : Greedy (· < n) (Joins edges) (ordered ++ [x]) :=
    h.greedy.snoc hx hnew hpre fun y hy hnot hyready => hmin y ((h.ready y).mpr ⟨hy, hnot, hyready⟩)
  have hcount : ∀ v, waitingFor edges ordered v =
      waitingFor edges (ordered ++ [x]) v + if v ∈ successorsOf edges x then 1 else 0 := fun v => by
    grind [waitingFor_snoc, nodup_successorsOf]
  have hpos : ∀ s ∈ successorsOf edges x, ∃ d, indegrees[s]? = some (d + 1) := by
    intro s hs
    have hlt : s < n := (hn _ (mem_successorsOf.mp hs)).2
    refine ⟨waitingFor edges (ordered ++ [x]) s, ?_⟩
    rw [h.waiting s hlt, hcount s, if_pos hs]
  refine (releaseSuccessors_ends (nodup_successorsOf hnodup x) hpos).mono fun released hreleased => ⟨hgreedy, ?_, ?_⟩
  · grind [h.waiting, Nat.add_sub_cancel]
  · intro v
    rw [hreleased.2, hrest, h.ready, ← waitingFor_eq_zero, ← waitingFor_eq_zero, mem_append, mem_singleton]
    by_cases hs : v ∈ successorsOf edges x
    · have hlt : v < n := (hn _ (mem_successorsOf.mp hs)).2
      have hold : v ∉ ordered := fun hv => hnew (h.greedy.mem_of_needed hv (.single (mem_successorsOf.mp hs)))
      have hne : v ≠ x := by
        rintro rfl
        exact hnew (hpre v (mem_successorsOf.mp hs))
      grind [h.waiting]
    grind

theorem drainReady_ends (hs : ∀ v < n, successors[v]? = some (successorsOf edges v)) (hnodup : edges.Nodup)
    (hn : ∀ e ∈ edges, (ofLex e).1 < n ∧ (ofLex e).2 < n) {rounds : Nat}
    (h : Working n edges indegrees ready ordered) (hrounds : n < ordered.length + rounds) :
    Ends (fun order => Greedy (· < n) (Joins edges) order) (drainReady successors indegrees ready ordered rounds) := by
  induction rounds generalizing indegrees ready ordered with
  | zero => exact absurd h.length_le (by omega)
  | succ rounds ih =>
    rw [drainReady]
    cases hpop : ready.popFirst with
    | none => exact h.greedy
    | some popped =>
      obtain ⟨x, ready'⟩ := popped
      have hx : x < n := ((h.ready x).mp (OrdSet.popFirst_some hpop).1).1
      simp only [hs x hx]
      refine (h.round hnodup hn hpop).bind fun released hreleased => ?_
      grind

/-- The passes come back in the greedy order, all of them, or there is a cycle. -/
theorem topologicalOrder_ends {edges : OrdSet Edge} (hn : ∀ e ∈ edges, (ofLex e).1 < n ∧ (ofLex e).2 < n) :
    Ends (fun order => Greedy (· < n) (Joins edges.elems) order ∧ order.length = n) (topologicalOrder n edges) := by
  refine (countEdges_ends (length_replicate ..) (length_replicate ..) hn).bind fun counted hcounted => ?_
  obtain ⟨successors, indegrees⟩ := counted
  have hsucc : ∀ v < n, successors[v]? = some (successorsOf edges.elems v) := fun v hv => by
    simp [hcounted.1 v, hv]
  have hind : ∀ v < n, indegrees[v]? = some (waitingFor edges.elems [] v) := fun v hv => by
    simp [hcounted.2 v, hv]
  have hstart : Working n edges.elems indegrees
      (OrdSet.ofList ((range n).filter fun index => indegrees[index]? = some 0)) [] := by
    refine ⟨.nil, hind, fun v => ?_⟩
    rw [OrdSet.mem_ofList, mem_filter, mem_range, ← waitingFor_eq_zero]
    by_cases hv : v < n
    · simp [hind v hv]
    · simp [hv]
  refine (drainReady_ends hsucc edges.nodup hn hstart (by simp)).bind fun order horder => ?_
  grind [Ends]

end Drain

end TensorDE.Renderer.RenderGraph
