import TensorDE.Lib.Keyed
import TensorDE.Renderer.RenderGraphScan

set_option linter.dupNamespace false

namespace TensorDE.Renderer.RenderGraph

open Effect Maps Sets Schedule Keyed List

abbrev States := Map ResourceId ResourceState

variable (states : States)

/-- A barrier takes a resource from the source state it names, and from no other. -/
def crossBarrier (barrier : Barrier) : Option States :=
  states.insertWhen (fun state => state = some barrier.source) barrier.resource barrier.destination

/-- A pass finds a resource in its declared state. A resource nobody has declared a state for is in the
state of its first use. -/
def enterUse (usage : ResourceUse) : Option States :=
  states.insertWhen (fun state => state = none ∨ state = some usage.state) usage.resource usage.state

def replayPass (barriers : List Barrier) (states : States) (pass : RenderPass) : Option States := do
  let states ← (barriers.filter fun barrier => barrier.after = pass.id).foldlM crossBarrier states
  pass.resources.foldlM enterUse states

variable (graph : RenderGraph)

def initialStatesOf : States := graph.initialStates.collect fun _ entry => entry.2

def replay (compiled : CompiledGraph) : Option States :=
  compiled.orderedPasses.foldlM (fun states id => do
    let pass ← graph.passes.find? fun pass => pass.id = id
    replayPass compiled.barriers states pass) graph.initialStatesOf

/-- Two uses of one resource, in the order in which their passes were added. -/
structure Shares (graph : RenderGraph) (i j : Nat) (u v : ResourceUse) : Prop where
  lt : i < j
  first : ∃ pass, graph.passes[i]? = some pass ∧ u ∈ pass.resources
  second : ∃ pass, graph.passes[j]? = some pass ∧ v ∈ pass.resources
  same : u.resource = v.resource

/-- The compiled order runs pass `i` before pass `j`. -/
def Precedes (compiled : CompiledGraph) (i j : Nat) : Prop :=
  ∃ p q, graph.passes[i]? = some p ∧ graph.passes[j]? = some q ∧ [p.id, q.id].Sublist compiled.orderedPasses

structure HazardFree (graph : RenderGraph) (compiled : CompiledGraph) : Prop where
  ordered : ∀ i j u v, Shares graph i j u v → Clash u v → Precedes graph compiled i j
  replays : (graph.replay compiled).isSome

/-- The use at pass `i` changes the state that the resource had before. -/
def Changes (i : Nat) (usage : ResourceUse) : Prop :=
  ∃ entry, graph.prior usage.resource i = some entry ∧ entry.2.state ≠ usage.state

section Uses

variable {graph : RenderGraph} {compiled : CompiledGraph} {order : List Nat} {i : Nat} {pass : RenderPass}
  {r : ResourceId} {usage : ResourceUse}

theorem Schedules.mem_order (h : Schedules graph compiled order) : i ∈ order ↔ i < graph.passes.length := by
  refine ⟨h.greedy.nodes_of_mem, fun hi => ?_⟩
  have hsub : order ⊆ range graph.passes.length := fun u hu => mem_range.mpr (h.greedy.nodes_of_mem hu)
  have hperm := (h.greedy.nodup.subperm hsub).perm_of_length_le (by simp [h.length])
  exact hperm.mem_iff.mpr (mem_range.mpr hi)

theorem Schedules.useAt_iff (h : Schedules graph compiled order) (hget : graph.passes[i]? = some pass) :
    graph.useAt i r = some usage ↔ usage ∈ pass.resources ∧ usage.resource = r := by
  rw [useAt, hget, Option.bind_some, find?_key (h.distinct i pass hget)]

theorem useAt_resource (h : graph.useAt i r = some usage) : usage.resource = r := by
  obtain ⟨pass, _, hfind⟩ := Option.bind_eq_some_iff.mp h
  simpa using find?_some hfind

variable {j : Nat}

section

variable (h : Schedules graph compiled order)
include h

theorem Schedules.shares_iff {u v : ResourceUse} :
    Shares graph i j u v ↔ i < j ∧ graph.useAt i u.resource = some u ∧ graph.useAt j u.resource = some v := by
  constructor
  · grind +splitImp +splitIndPred [h.useAt_iff]
  · rintro ⟨hlt, hu, hv⟩
    obtain ⟨p, hp, _⟩ := Option.bind_eq_some_iff.mp hu
    obtain ⟨q, hq, _⟩ := Option.bind_eq_some_iff.mp hv
    obtain ⟨hv, hsame⟩ := (h.useAt_iff hq).mp hv
    exact ⟨hlt, ⟨p, hp, ((h.useAt_iff hp).mp hu).1⟩, ⟨q, hq, hv⟩, hsame.symm⟩

theorem Schedules.eq_of_id {p q : RenderPass} (hp : p ∈ graph.passes)
    (hq : q ∈ graph.passes) (hid : p.id = q.id) : p = q := inj_on_of_nodup_map h.ids hp hq hid

theorem Schedules.precedes_iff (hi : i < graph.passes.length)
    (hj : j < graph.passes.length) (hne : i ≠ j) : Precedes graph compiled i j ↔ order.idxOf i < order.idxOf j := by
  have hforward : ∀ {a b}, a < graph.passes.length → b < graph.passes.length → order.idxOf a < order.idxOf b →
      Precedes graph compiled a b := by
    intro a b ha hb hlt
    have hsub := (pair_sublist_iff h.greedy.nodup).mpr ⟨hlt, h.mem_order.mpr hb⟩
    have hids := hsub.filterMap fun i => graph.passes[i]?.map RenderPass.id
    rw [← h.ordered] at hids
    refine ⟨_, _, getElem?_eq_getElem ha, getElem?_eq_getElem hb, ?_⟩
    simpa [getElem?_eq_getElem ha, getElem?_eq_getElem hb] using hids
  refine ⟨fun hbefore => ?_, hforward hi hj⟩
  obtain hlt | heq | hlt := lt_trichotomy (order.idxOf i) (order.idxOf j)
  · exact hlt
  · exact absurd ((idxOf_inj (h.mem_order.mpr hi)).mp heq) hne
  · -- the other way round both pairs of ids would be in the order
    obtain ⟨p, q, hp, hq, hpq⟩ := hbefore
    obtain ⟨q', p', hq', hp', hqp⟩ := hforward hj hi hlt
    have hnodup : compiled.orderedPasses.Nodup := by
      rw [h.ordered]
      refine h.greedy.nodup.filterMap fun a b id ha hb => ?_
      obtain ⟨x, hx, rfl⟩ := Option.map_eq_some_iff.mp ha
      obtain ⟨y, hy, hid⟩ := Option.map_eq_some_iff.mp hb
      obtain rfl := h.eq_of_id (mem_of_getElem? hy) (mem_of_getElem? hx) hid
      exact (getElem?_inj (List.getElem?_eq_some_iff.mp hx).1 (List.Nodup.of_map _ h.ids)).mp (hx.trans hy.symm)
    grind [pair_sublist_iff]

end

end Uses

section Replay

variable {graph : RenderGraph} {compiled : CompiledGraph} {order : List Nat} {i : Nat} {pass : RenderPass}
  {states t : States} {r : ResourceId} {usage : ResourceUse}

/-- A pass with this use may run while the resource is in `state`: the barrier before it finds its source
there, or without a barrier the use finds its own state. -/
structure Admits (entry : Option (Option Nat × ResourceUse)) (usage : ResourceUse) (state : Option ResourceState) :
    Prop where
  crosses : ∀ e, entry = some e → Clash e.2 usage → state = some e.2.state
  finds : (∀ e, entry = some e → ¬ Clash e.2 usage) → state = none ∨ state = some usage.state

/-- The state a resource is left in when the passes in `ran` have run. -/
def current (graph : RenderGraph) (r : ResourceId) (ran : List Nat) : Option ResourceState :=
  ran.foldl (fun state i => ((graph.useAt i r).map ResourceUse.state).or state) (graph.initialStatesOf.find r)

theorem current_snoc (ran : List Nat) :
    graph.current r (ran ++ [i]) = ((graph.useAt i r).map ResourceUse.state).or (graph.current r ran) := by
  simp [current]

variable {id : PassId}

theorem barrierFor_some {barrier : Barrier} (h : graph.barrierFor i id usage = some barrier) :
    ∃ entry, graph.prior usage.resource i = some entry ∧ Clash entry.2 usage ∧ barrier.resource = usage.resource ∧
      barrier.after = id ∧ barrier.source = entry.2.state ∧ barrier.destination = usage.state := by
  obtain ⟨entry, hentry, h⟩ := Option.bind_eq_some_iff.mp h
  grind

theorem barrierFor_eq_none :
    graph.barrierFor i id usage = none ↔ ∀ e, graph.prior usage.resource i = some e → ¬ Clash e.2 usage := by
  rw [barrierFor]
  cases graph.prior usage.resource i with
  | none => simp
  | some entry => simp

theorem flatMap_eq_of_alone {α β : Type} {l : List α} {f : α → List β} {a : α} (hn : l.Nodup) (ha : a ∈ l)
    (h : ∀ b ∈ l, b ≠ a → f b = []) : l.flatMap f = f a := by
  obtain ⟨before, after, rfl⟩ := append_of_mem ha
  obtain ⟨_, hafter, hapart⟩ := nodup_append.mp hn
  have hbefore : before.flatMap f = [] := flatMap_eq_nil_iff.mpr fun b hb =>
    h b (by simp [hb]) (hapart b hb a (by simp))
  have hrest : after.flatMap f = [] := flatMap_eq_nil_iff.mpr fun b hb =>
    h b (by simp [hb]) fun heq => (nodup_cons.mp hafter).1 (heq ▸ hb)
  grind

theorem Schedules.filter_barriers (h : Schedules graph compiled order) (hget : graph.passes[i]? = some pass) :
    (compiled.barriers.filter fun barrier => barrier.after = pass.id) = pass.resources.filterMap (graph.barrierFor i pass.id) := by
  have hi : i < graph.passes.length := (List.getElem?_eq_some_iff.mp hget).1
  have hown : (graph.barriersAt i).filter (fun barrier => barrier.after = pass.id) = graph.barriersAt i := by
    rw [filter_eq_self]
    simp only [barriersAt, hget, Option.map_some, Option.getD_some, mem_filterMap]
    rintro barrier ⟨usage, _, hbarrier⟩
    obtain ⟨_, _, _, _, hafter, _⟩ := barrierFor_some hbarrier
    simpa using hafter
  have hother : ∀ j < graph.passes.length, j ≠ i → (graph.barriersAt j).filter (fun barrier => barrier.after = pass.id) = [] := by
    intro j hj hne
    have hgetj : graph.passes[j]? = some graph.passes[j] := getElem?_eq_getElem hj
    rw [filter_eq_nil_iff]
    simp only [barriersAt, hgetj, Option.map_some, Option.getD_some, mem_filterMap, decide_eq_true_eq]
    rintro barrier ⟨usage, _, hbarrier⟩ hafter
    obtain ⟨_, _, _, _, hafter', _⟩ := barrierFor_some hbarrier
    have hsame := h.eq_of_id (mem_of_getElem? hgetj) (mem_of_getElem? hget) (hafter'.symm.trans hafter)
    rw [hsame, ← hget] at hgetj
    exact hne ((getElem?_inj hj (List.Nodup.of_map _ h.ids)).mp hgetj)
  rw [h.barriers, filter_flatMap, flatMap_eq_of_alone nodup_range (mem_range.mpr hi)
    fun j hj hne => hother j (mem_range.mp hj) hne, hown]
  simp [barriersAt, hget]

/-- What running pass `i` does to the states. -/
def replayAt (graph : RenderGraph) (states : States) (i : Nat) : Option States :=
  graph.passes[i]?.bind fun pass => do
    let states ← (pass.resources.filterMap (graph.barrierFor i pass.id)).foldlM crossBarrier states
    pass.resources.foldlM enterUse states

theorem Schedules.replay_eq (h : Schedules graph compiled order) :
    graph.replay compiled = order.foldlM graph.replayAt graph.initialStatesOf := by
  have hall : ∀ rest ⊆ order, ∀ states, (rest.filterMap fun i => graph.passes[i]?.map RenderPass.id).foldlM
      (fun states id => do
        let pass ← graph.passes.find? fun pass => pass.id = id
        replayPass compiled.barriers states pass) states = rest.foldlM graph.replayAt states := by
    intro rest hrest
    induction rest with
    | nil => exact fun states => rfl
    | cons i rest ih =>
      obtain ⟨hi, hrest⟩ := cons_subset.mp hrest
      intro states
      obtain ⟨pass, hget⟩ : ∃ pass, graph.passes[i]? = some pass :=
        ⟨_, getElem?_eq_getElem (h.mem_order.mp hi)⟩
      have hfind : (graph.passes.find? fun other => other.id = pass.id) = some pass :=
        (find?_key h.ids).mpr ⟨mem_of_getElem? hget, rfl⟩
      have hhead : ((i :: rest).filterMap fun i => graph.passes[i]?.map RenderPass.id) =
          pass.id :: rest.filterMap fun i => graph.passes[i]?.map RenderPass.id := by simp [hget]
      have hone : (do
          let found ← graph.passes.find? fun other => other.id = pass.id
          replayPass compiled.barriers states found) = graph.replayAt states i := by
        simp [hfind, replayPass, h.filter_barriers hget, replayAt, hget]
      grind [Option.bind_congr]
  rw [replay, h.ordered, hall order (List.Subset.refl order)]

variable {uses : List ResourceUse}

theorem nodup_barriers (hn : (uses.map ResourceUse.resource).Nodup) :
    ((uses.filterMap (graph.barrierFor i id)).map Barrier.resource).Nodup := by
  grind [barrierFor_some]

theorem find?_barriers (hn : (uses.map ResourceUse.resource).Nodup) :
    ((uses.filterMap (graph.barrierFor i id)).find? fun barrier => barrier.resource = r) =
      (uses.find? fun usage => usage.resource = r).bind (graph.barrierFor i id) := by
  ext barrier
  rw [find?_key (nodup_barriers hn), mem_filterMap, Option.bind_eq_some_iff]
  constructor
  · rintro ⟨⟨usage, hmem, hbarrier⟩, rfl⟩
    obtain ⟨_, _, _, hres, _⟩ := barrierFor_some hbarrier
    exact ⟨usage, (find?_key hn).mpr ⟨hmem, hres.symm⟩, hbarrier⟩
  grind [barrierFor_some]

theorem replayAt_of_admits (hget : graph.passes[i]? = some pass) (hn : (pass.resources.map ResourceUse.resource).Nodup)
    (h : ∀ usage ∈ pass.resources, Admits (graph.prior usage.resource i) usage (states.find usage.resource)) :
    ∃ t, graph.replayAt states i = some t ∧
      ∀ r, t.find r = ((graph.useAt i r).map ResourceUse.state).or (states.find r) := by
  have hcheck : ∀ barrier ∈ pass.resources.filterMap (graph.barrierFor i pass.id),
      decide (states.find barrier.resource = some barrier.source) = true := by
    intro barrier hmem
    obtain ⟨usage, husage, hbarrier⟩ := mem_filterMap.mp hmem
    obtain ⟨entry, hentry, hclash, hres, _, hsource, _⟩ := barrierFor_some hbarrier
    rw [hres, hsource, decide_eq_true_eq]
    exact (h usage husage).crosses entry hentry hclash
  obtain ⟨crossed, hcrossed, hfind⟩ : ∃ t, (pass.resources.filterMap (graph.barrierFor i pass.id)).foldlM crossBarrier states =
      some t ∧ ∀ r, t.find r = (((pass.resources.filterMap (graph.barrierFor i pass.id)).find? fun barrier =>
        barrier.resource = r).map Barrier.destination).or (states.find r) :=
    Map.foldlM_insertWhen (nodup_barriers hn) states hcheck
  have henter : ∀ usage ∈ pass.resources,
      decide (crossed.find usage.resource = none ∨ crossed.find usage.resource = some usage.state) = true := by
    intro usage husage
    rw [decide_eq_true_eq, hfind, find?_barriers hn, (find?_key hn).mpr ⟨husage, rfl⟩, Option.bind_some]
    cases hbarrier : graph.barrierFor i pass.id usage with
    | none => simpa using (h usage husage).finds (barrierFor_eq_none.mp hbarrier)
    | some barrier => grind [barrierFor_some]
  obtain ⟨t, ht, hfind'⟩ : ∃ t, pass.resources.foldlM enterUse crossed = some t ∧ ∀ r, t.find r =
      ((pass.resources.find? fun usage => usage.resource = r).map ResourceUse.state).or (crossed.find r) :=
    Map.foldlM_insertWhen hn crossed henter
  refine ⟨t, by simp [replayAt, hget, hcrossed, ht], fun r => ?_⟩
  rw [hfind', hfind, find?_barriers hn, useAt, hget, Option.bind_some]
  cases pass.resources.find? fun usage => usage.resource = r <;> simp

theorem admits_of_replayAt (hget : graph.passes[i]? = some pass) (hn : (pass.resources.map ResourceUse.resource).Nodup)
    (h : graph.replayAt states i = some t) :
    ∀ usage ∈ pass.resources, Admits (graph.prior usage.resource i) usage (states.find usage.resource) := by
  rw [replayAt, hget, Option.bind_some] at h
  obtain ⟨crossed, hcrossed, hentered⟩ := Option.bind_eq_some_iff.mp h
  have hcheck : ∀ barrier ∈ pass.resources.filterMap (graph.barrierFor i pass.id),
      decide (states.find barrier.resource = some barrier.source) = true :=
    Map.of_foldlM_insertWhen (nodup_barriers hn) hcrossed
  obtain ⟨crossed', hcrossed', hfind⟩ : ∃ t, (pass.resources.filterMap (graph.barrierFor i pass.id)).foldlM crossBarrier states =
      some t ∧ ∀ r, t.find r = (((pass.resources.filterMap (graph.barrierFor i pass.id)).find? fun barrier =>
        barrier.resource = r).map Barrier.destination).or (states.find r) :=
    Map.foldlM_insertWhen (nodup_barriers hn) states hcheck
  obtain rfl := Option.some.inj (hcrossed.symm.trans hcrossed')
  have henter : ∀ usage ∈ pass.resources,
      decide (crossed.find usage.resource = none ∨ crossed.find usage.resource = some usage.state) = true :=
    Map.of_foldlM_insertWhen hn hentered
  intro usage husage
  refine ⟨fun entry hentry hclash => ?_, fun hnone => ?_⟩
  · cases hbarrier : graph.barrierFor i pass.id usage with
    | none => exact absurd hclash (barrierFor_eq_none.mp hbarrier entry hentry)
    | some barrier => grind -linarith [barrierFor_some]
  · have hfound := henter usage husage
    rw [decide_eq_true_eq, hfind, find?_barriers hn, (find?_key hn).mpr ⟨husage, rfl⟩, Option.bind_some,
      barrierFor_eq_none.mpr hnone] at hfound
    simpa using hfound

/-- A replay succeeds when every pass finds each of its resources as the passes before it left them. -/
theorem Schedules.replays_iff (h : Schedules graph compiled order) :
    (graph.replay compiled).isSome ↔ ∀ ran i rest, order = ran ++ i :: rest → ∀ r usage, graph.useAt i r = some usage →
      Admits (graph.prior r i) usage (graph.current r ran) := by
  have hsuffix : ∀ ran rest states, order = ran ++ rest → (∀ r, states.find r = graph.current r ran) →
      ((rest.foldlM graph.replayAt states).isSome ↔ ∀ mid i after, rest = mid ++ i :: after → ∀ r usage,
        graph.useAt i r = some usage → Admits (graph.prior r i) usage (graph.current r (ran ++ mid))) := by
    intro ran rest
    induction rest generalizing ran with
    | nil => simp
    | cons i rest ih =>
      intro states horder hstates
      obtain ⟨pass, hget⟩ : ∃ pass, graph.passes[i]? = some pass :=
        ⟨_, getElem?_eq_getElem (h.mem_order.mp (horder ▸ by simp))⟩
      have hn := h.distinct i pass hget
      have hnext : ∀ t, graph.replayAt states i = some t → ∀ r, t.find r = graph.current r (ran ++ [i]) := by
        intro t ht r
        obtain ⟨t', ht', hfind⟩ := replayAt_of_admits hget hn (admits_of_replayAt hget hn ht)
        obtain rfl := Option.some.inj (ht.symm.trans ht')
        rw [hfind, current_snoc, hstates]
      have horder' : order = (ran ++ [i]) ++ rest := by simpa using horder
      constructor
      · intro hsome mid j after hsplit r usage huse
        obtain ⟨_, hfold⟩ := Option.isSome_iff_exists.mp hsome
        obtain ⟨t, ht, hfold⟩ := Option.bind_eq_some_iff.mp hfold
        cases mid with
        | nil =>
          obtain ⟨rfl, _⟩ := List.cons.inj hsplit
          obtain ⟨hmem, rfl⟩ := (h.useAt_iff hget).mp huse
          grind [admits_of_replayAt]
        | cons _ mid => grind -linarith
      · intro hadmits
        have hhere : ∀ usage ∈ pass.resources, Admits (graph.prior usage.resource i) usage (states.find usage.resource) := by
          intro usage hmem
          have huse := hadmits [] i rest rfl usage.resource usage ((h.useAt_iff hget).mpr ⟨hmem, rfl⟩)
          rwa [append_nil, ← hstates] at huse
        obtain ⟨t, ht, _⟩ := replayAt_of_admits hget hn hhere
        grind
  rw [h.replay_eq]
  simpa using hsuffix [] order graph.initialStatesOf rfl fun r => rfl

theorem current_cases (graph : RenderGraph) (r : ResourceId) (ran : List Nat) :
    (∃ before q after usage, ran = before ++ q :: after ∧ graph.useAt q r = some usage ∧
      (∀ k ∈ after, graph.useAt k r = none) ∧ graph.current r ran = some usage.state) ∨
    (∀ k ∈ ran, graph.useAt k r = none) ∧ graph.current r ran = graph.initialStatesOf.find r := by
  induction ran using reverseRecOn with
  | nil => exact .inr ⟨by simp, rfl⟩
  | append_singleton ran i ih =>
    rw [current_snoc]
    cases hi : graph.useAt i r with
    | some usage => grind
    | none => grind

end Replay

section Hazards

variable {graph : RenderGraph} {compiled : CompiledGraph} {order ran rest : List Nat} {r : ResourceId} {i j a b : Nat}
  {u v w : ResourceUse}

theorem initialStatesOf_find (graph : RenderGraph) (r : ResourceId) :
    graph.initialStatesOf.find r = (graph.initialPrevious.find r).map fun entry => entry.2.state := by
  simp [initialStatesOf, initialPrevious, Function.comp_def]

theorem Schedules.running_cases (h : Schedules graph compiled order) (r : ResourceId) (horder : order = ran ++ i :: rest) :
    (∃ q w, graph.useAt q r = some w ∧ order.idxOf q < order.idxOf i ∧
      (∀ k v, graph.useAt k r = some v → order.idxOf k < order.idxOf i → k = q ∨ order.idxOf k < order.idxOf q) ∧
      graph.current r ran = some w.state) ∨ (∀ k, order.idxOf k < order.idxOf i → graph.useAt k r = none) ∧
      graph.current r ran = graph.initialStatesOf.find r := by
  have hn := h.greedy.nodup
  have hran : ∀ k, order.idxOf k < order.idxOf i ↔ k ∈ ran := fun k => by
    grind
  obtain ⟨before, q, after, w, rfl, hq, hafter, hcurrent⟩ | ⟨hnone, hcurrent⟩ := current_cases graph r ran
  · refine .inl ⟨q, w, hq, (hran q).mpr (by simp), fun k v hk hlt => ?_, hcurrent⟩
    grind
  grind

theorem Schedules.idxOf_total (h : Schedules graph compiled order) (ha : graph.useAt a r = some u) (hne : a ≠ b) :
    order.idxOf a < order.idxOf b ∨ order.idxOf b < order.idxOf a := by
  grind [idxOf_inj, h.mem_order.mpr, useAt_lt]

/-- The uses of one resource run in the order of their passes wherever that can be told from the states. -/
def InOrder (graph : RenderGraph) (order : List Nat) (r : ResourceId) : Prop :=
  ∀ a b u v, a < b → graph.useAt a r = some u → graph.useAt b r = some v → Clash u v ∨ Changes graph a u →
    order.idxOf a < order.idxOf b

theorem InOrder.same_state (h : InOrder graph order r) (ha : graph.useAt a r = some u) (hb : graph.useAt b r = some v)
    (hlt : a < b) (hpos : order.idxOf b < order.idxOf a) : u.state = v.state ∧ ¬ Changes graph a u := by
  refine ⟨?_, fun hchange => Nat.lt_asymm hpos (h a b u v hlt ha hb (.inr hchange))⟩
  by_contra hne
  exact Nat.lt_asymm hpos (h a b u v hlt ha hb (.inl (.inr (.inr hne))))

/-- The uses that lead up to `i` in its own state begin with one that changes the state, or with the initial
state. -/
theorem exists_start (hi : graph.useAt i r = some u) : ∃ f v, f ≤ i ∧ graph.useAt f r = some v ∧ v.state = u.state ∧
      (∀ k w, f ≤ k → k ≤ i → graph.useAt k r = some w → w.state = u.state) ∧
      (Changes graph f v ∨ (∀ k < f, graph.useAt k r = none) ∧
        (graph.initialStatesOf.find r = none ∨ graph.initialStatesOf.find r = some u.state)) := by
  induction i using Nat.strong_induction_on generalizing u with
  | h i ih =>
    have hres := useAt_resource hi
    have honly : ∀ k w, i ≤ k → k ≤ i → graph.useAt k r = some w → w.state = u.state := by
      intro k w hle hge hk
      obtain rfl : k = i := by omega
      rw [Option.some.inj (hk.symm.trans hi)]
    obtain ⟨p, w, hp, huse, hlast, hprior⟩ | ⟨hnone, hprior⟩ := prior_cases graph r i
    · by_cases hstate : w.state = u.state
      · obtain ⟨f, v, hf, hfuse, hfstate, hbetween, hstart⟩ := ih p hp huse
        rw [hstate] at hfstate hstart hbetween
        refine ⟨f, v, by omega, hfuse, hfstate, fun k x hk hki hx => ?_, hstart⟩
        obtain hkp | hkp := Nat.lt_or_ge p k
        · obtain hlt | hge := Nat.lt_or_ge k i
          · rw [hlast k hkp hlt] at hx
            cases hx
          · exact honly k x hge hki hx
        · exact hbetween k x hk hkp hx
      · exact ⟨i, u, le_rfl, hi, rfl, honly, .inl ⟨_, by rw [hres, hprior], hstate⟩⟩
    · cases hinit : graph.initialPrevious.find r with
      | none => grind [initialStatesOf_find]
      | some entry =>
        by_cases hstate : entry.2.state = u.state
        · grind [initialStatesOf_find]
        · exact ⟨i, u, le_rfl, hi, rfl, honly, .inl ⟨entry, by rw [hres, hprior, hinit], hstate⟩⟩

section

variable (h : Schedules graph compiled order)
include h

/-- In such an order each pass finds its resources as its barriers expect them. -/
theorem Schedules.admits (hin : InOrder graph order r)
    (horder : order = ran ++ i :: rest) (hi : graph.useAt i r = some u) :
    Admits (graph.prior r i) u (graph.current r ran) := by
  have hres := useAt_resource hi
  have hrunning := h.running_cases r horder
  refine ⟨fun entry hentry hclash => ?_, fun hclear => ?_⟩
  · have hlater : ∀ q w, i < q → graph.useAt q r = some w → order.idxOf q < order.idxOf i → w.state = entry.2.state := by
      intro q w hlt hq hpos
      obtain ⟨hstate, hsteady⟩ := hin.same_state hi hq hlt hpos
      by_contra hne
      exact hsteady ⟨entry, by rw [hres, hentry], fun heq => hne (hstate.symm.trans heq.symm)⟩
    obtain ⟨p, w, hp, huse, hlast, hprior⟩ | ⟨hnone, hprior⟩ := prior_cases graph r i
    · obtain rfl := Option.some.inj (hentry.symm.trans hprior)
      have hbefore := hin p i w u hp huse hi (.inl hclash)
      obtain ⟨q, x, hq, hpos, hfinal, hcurrent⟩ | ⟨hnone, _⟩ := hrunning
      · rw [hcurrent, Option.some.injEq]
        obtain rfl | hpq := hfinal p w huse hbefore
        · rw [Option.some.inj (hq.symm.trans huse)]
        obtain hlt | heq | hgt := lt_trichotomy q p
        · exact (hin.same_state hq huse hlt hpq).1
        · exact absurd (heq ▸ hpq) (Nat.lt_irrefl _)
        grind
      grind
    grind [initialStatesOf_find]
  · have hsteady : ¬ Changes graph i u := by
      rintro ⟨entry, hentry, hne⟩
      exact hclear entry (hres ▸ hentry) (.inr (.inr hne))
    obtain ⟨f, v, hf, hfuse, hfstate, hbetween, hstart⟩ := exists_start hi
    have hearly : Changes graph f v → order.idxOf f < order.idxOf i := by
      intro hchange
      obtain hlt | rfl := Nat.lt_or_eq_of_le hf
      · exact hin f i v u hlt hfuse hi (.inr hchange)
      · grind
    obtain ⟨q, x, hq, hpos, hfinal, hcurrent⟩ | ⟨hnone, hcurrent⟩ := hrunning
    · refine .inr ?_
      rw [hcurrent, Option.some.injEq]
      by_contra hne
      obtain hlt | heq | hgt := lt_trichotomy q i
      · obtain hqf | hqf := Nat.lt_or_ge q f
        · obtain hchange | ⟨hnone, _⟩ := hstart
          · have hqbefore := hin q f x v hqf hq hfuse (.inl (.inr (.inr (hfstate ▸ hne))))
            grind
          · rw [hnone q hqf] at hq
            cases hq
        · exact hne (hbetween q x hqf hlt.le hq)
      · exact absurd (heq ▸ hpos) (Nat.lt_irrefl _)
      grind [hin.same_state]
    grind

/-- A pass that runs before an earlier change of state would have to find the new state already there. -/
theorem Schedules.before_of_changes (hclash : ∀ a b u v, a < b → graph.useAt a r = some u → graph.useAt b r = some v → Clash u v →
      order.idxOf a < order.idxOf b)
    (hadmits : ∀ ran i rest, order = ran ++ i :: rest → ∀ usage, graph.useAt i r = some usage →
      Admits (graph.prior r i) usage (graph.current r ran))
    (ha : graph.useAt a r = some u) (hchange : Changes graph a u) (hb : graph.useAt b r = some v) (hab : a < b) :
    order.idxOf a < order.idxOf b := by
  obtain ⟨entry, hentry, hne⟩ := hchange
  rw [useAt_resource ha] at hentry
  induction hn : order.idxOf b using Nat.strong_induction_on generalizing b v with
  | h n ih =>
    subst hn
    by_contra hnot
    have hcalm : ¬ Clash u v := fun hc => hnot (hclash a b u v hab ha hb hc)
    have hsame : u.state = v.state := by
      by_contra hne
      exact hcalm (.inr (.inr hne))
    obtain ⟨ran, rest, horder⟩ := append_of_mem (h.mem_order.mpr (useAt_lt hb))
    have hnobarrier : ∀ e, graph.prior r b = some e → ¬ Clash e.2 v := by
      obtain ⟨p, w, hp, huse, hlast, hprior⟩ | ⟨hnone, _⟩ := prior_cases graph r b
      · grind
      · rw [hnone a hab] at ha
        cases ha
    have hfinds := (hadmits ran b rest horder v hb).finds hnobarrier
    obtain ⟨q, w, hq, hqb, hfinal, hcurrent⟩ | ⟨hnone, hcurrent⟩ := h.running_cases r horder
    · obtain hlt | rfl | hgt := lt_trichotomy q a
      · obtain ⟨p, x, hp, huse, hlast, hprior⟩ | ⟨hnone, _⟩ := prior_cases graph r a
        · obtain hqp | rfl | hqp := lt_trichotomy q p
          · grind -linarith [Clash]
          · grind
          grind
        · rw [hnone q hlt] at hq
          cases hq
      · exact hnot hqb
      grind
    · obtain ⟨p, x, hp, huse, _, hprior⟩ | ⟨_, hprior⟩ := prior_cases graph r a
      · obtain rfl := Option.some.inj (hentry.symm.trans hprior)
        have hpb := hclash p b x v (hp.trans hab) huse hb (.inr (.inr fun heq => hne (heq.trans hsame.symm)))
        rw [hnone p hpb] at huse
        cases huse
      grind [initialStatesOf_find]

theorem Schedules.precedes_iff_ahead (hs : Shares graph i j u v) :
    (Precedes graph compiled i j ↔ order.idxOf i < order.idxOf j) ∧
      (order.idxOf i < order.idxOf j ↔ Ahead graph.Depends none i j) := by
  obtain ⟨hlt, hu, hv⟩ := h.shares_iff.mp hs
  grind [useAt_lt, h.precedes_iff, h.greedy.idxOf_lt_iff_ahead, h.mem_order.mpr]

end

/-- An accepted graph is free of hazards exactly when its dependencies alone put two uses of a resource in
order, wherever one of them writes, their states differ, or the first one changes the state. -/
theorem compile_hazardFree_iff (h : graph.compile = .ok compiled) :
    HazardFree graph compiled ↔ ∀ i j u v, Shares graph i j u v → Clash u v ∨ Changes graph i u →
      Ahead graph.Depends none i j := by
  obtain ⟨order, hs⟩ := (compile_ends graph).of_ok h
  constructor
  · intro hfree i j u v hshares hcase
    rw [← (hs.precedes_iff_ahead hshares).2]
    have hclash : ∀ a b x y, a < b → graph.useAt a u.resource = some x → graph.useAt b u.resource = some y → Clash x y →
        order.idxOf a < order.idxOf b := by
      intro a b x y hlt hx hy hc
      have hshares := hs.shares_iff.mpr ⟨hlt, by rw [useAt_resource hx, hx], by rw [useAt_resource hx, hy]⟩
      exact (hs.precedes_iff_ahead hshares).1.mp (hfree.ordered a b x y hshares hc)
    obtain ⟨hlt, hu, hv⟩ := hs.shares_iff.mp hshares
    obtain hc | hchange := hcase
    · exact hclash i j u v hlt hu hv hc
    · exact hs.before_of_changes hclash
        (fun ran k rest horder usage hk => hs.replays_iff.mp hfree.replays ran k rest horder _ usage hk) hu hchange hv hlt
  · intro hahead
    refine ⟨fun i j u v hshares hc => ?_, hs.replays_iff.mpr fun ran i rest horder r usage huse => ?_⟩
    · grind [hs.precedes_iff_ahead]
    · refine hs.admits (fun a b x y hlt hx hy hcase => ?_) horder huse
      have hshares := hs.shares_iff.mpr ⟨hlt, by rw [useAt_resource hx, hx], by rw [useAt_resource hx, hy]⟩
      exact (hs.precedes_iff_ahead hshares).2.mpr (hahead a b x y hshares hcase)

end Hazards

def sampled : ResourceUse := ⟨⟨7⟩, .image, .read, .image .fragmentSampledRead 0⟩

def written : ResourceUse := ⟨⟨7⟩, .image, .write, .image .colorAttachmentWrite 0⟩

/-- Two passes sample an image that a third one overwrites. The first of them waits for a fourth pass, and only
the second has an edge to the writer. -/
def delayedReader : RenderGraph :=
  (((default.addPass ⟨⟨0⟩, [⟨3⟩], [sampled]⟩).addPass ⟨⟨1⟩, [], [sampled]⟩).addPass ⟨⟨2⟩, [], [written]⟩).addPass ⟨⟨3⟩, [], []⟩

theorem delayedReader_hazard :
    delayedReader.compile = .ok ⟨[⟨1⟩, ⟨2⟩, ⟨3⟩, ⟨0⟩], [⟨⟨7⟩, .image, some ⟨1⟩, ⟨2⟩, sampled.state, written.state⟩]⟩ ∧
      ¬ HazardFree delayedReader
        ⟨[⟨1⟩, ⟨2⟩, ⟨3⟩, ⟨0⟩], [⟨⟨7⟩, .image, some ⟨1⟩, ⟨2⟩, sampled.state, written.state⟩]⟩ := by
  refine ⟨by decide, fun hfree => ?_⟩
  have hshares : Shares delayedReader 0 2 sampled written :=
    ⟨by decide, ⟨_, rfl, by decide⟩, ⟨_, rfl, by decide⟩, rfl⟩
  obtain ⟨p, q, hp, hq, hsub⟩ := hfree.ordered 0 2 sampled written hshares (by decide)
  cases hp
  cases hq
  revert hsub
  decide

/-- A pass draws into an image and the next one samples it. -/
def writeThenSample : RenderGraph := (default.addPass ⟨⟨10⟩, [], [written]⟩).addPass ⟨⟨20⟩, [], [sampled]⟩

theorem writeThenSample_depends {a b : Nat} (h : writeThenSample.Depends a b) : a < b := by
  obtain ⟨pass, hget, ⟨earlier, _, hmem⟩ | ⟨usage, _, earlier, hprior, _⟩⟩ := h
  · have hnone : ∀ pass ∈ writeThenSample.passes, pass.dependsOn = [] := by decide
    grind
  · exact (prior_some hprior).1

theorem writeThenSample_hazardFree :
    writeThenSample.compile = .ok ⟨[⟨10⟩, ⟨20⟩], [⟨⟨7⟩, .image, some ⟨10⟩, ⟨20⟩, written.state, sampled.state⟩]⟩ ∧
      HazardFree writeThenSample ⟨[⟨10⟩, ⟨20⟩], [⟨⟨7⟩, .image, some ⟨10⟩, ⟨20⟩, written.state, sampled.state⟩]⟩ := by
  have hcompile : writeThenSample.compile =
      .ok ⟨[⟨10⟩, ⟨20⟩], [⟨⟨7⟩, .image, some ⟨10⟩, ⟨20⟩, written.state, sampled.state⟩]⟩ := by decide
  refine ⟨hcompile, (compile_hazardFree_iff hcompile).mpr fun i j u v hshares _ => ?_⟩
  -- dependencies only lead forward, so every pass is the greatest one that it needs
  have hle : ∀ {a b}, Relation.ReflTransGen writeThenSample.Depends a b → a ≤ b := by
    intro a b hab
    induction hab with
    | refl => exact le_rfl
    | tail _ hstep ih => exact ih.trans (writeThenSample_depends hstep).le
  have htop : ∀ k, IsGreatest (Needs writeThenSample.Depends none k) k := fun k =>
    ⟨⟨by simp [Since], .refl⟩, fun a ha => hle ha.2⟩
  exact .first (htop i) (htop j) hshares.lt

end TensorDE.Renderer.RenderGraph
