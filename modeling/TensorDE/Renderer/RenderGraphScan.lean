import TensorDE.Renderer.RenderGraphOrder

set_option linter.dupNamespace false

namespace TensorDE.Renderer.RenderGraph

open Effect Maps Sets Schedule List

/-- One of two uses writes, or they want different states. -/
def Clash (a b : ResourceUse) : Prop := a.access.writes ∨ b.access.writes ∨ a.state ≠ b.state

instance (a b : ResourceUse) : Decidable (Clash a b) :=
  inferInstanceAs (Decidable (a.access.writes ∨ b.access.writes ∨ a.state ≠ b.state))

variable (graph : RenderGraph)

def useAt (i : Nat) (r : ResourceId) : Option ResourceUse :=
  graph.passes[i]?.bind fun pass => pass.resources.find? fun usage => usage.resource = r

/-- The use of `r` that comes last before pass `i`, or the declared initial state. -/
def prior (graph : RenderGraph) (r : ResourceId) : Nat → Option (Option Nat × ResourceUse)
  | 0 => graph.initialPrevious.find r
  | i + 1 => ((graph.useAt i r).map fun usage => (some i, usage)).or (prior graph r i)

/-- Pass `b` is made to wait for pass `a`: it says so itself, or `a` is the last one before it to use one of its
resources and the two uses clash. -/
def Depends (a b : Nat) : Prop :=
  ∃ pass, graph.passes[b]? = some pass ∧
    ((∃ earlier, graph.passes[a]? = some earlier ∧ earlier.id ∈ pass.dependsOn) ∨
      ∃ usage ∈ pass.resources, ∃ earlier, graph.prior usage.resource b = some (some a, earlier) ∧ Clash earlier usage)

def barrierFor (i : Nat) (pass : PassId) (usage : ResourceUse) : Option Barrier :=
  (graph.prior usage.resource i).bind fun entry =>
    if Clash entry.2 usage then
      some ⟨usage.resource, usage.kind, entry.1.bind fun before => graph.passes[before]?.map RenderPass.id, pass,
        entry.2.state, usage.state⟩
    else none

def barriersAt (i : Nat) : List Barrier :=
  (graph.passes[i]?.map fun pass => pass.resources.filterMap (graph.barrierFor i pass.id)).getD []

section Index

variable {passes done rest : List RenderPass} {indexById : Map PassId Nat}

/-- The map leads from the id of each pass to its place, and no id occurs twice. -/
structure Indexed (passes : List RenderPass) (indexById : Map PassId Nat) : Prop where
  nodup : (passes.map RenderPass.id).Nodup
  find : ∀ id i, indexById.find id = some i ↔ ∃ pass, passes[i]? = some pass ∧ pass.id = id

theorem indexPasses_ends (h : Indexed done indexById) :
    Ends (Indexed (done ++ rest)) (indexPasses done.length indexById rest) := by
  induction rest generalizing done indexById with
  | nil => simpa [indexPasses, Ends] using h
  | cons pass rest ih =>
    rw [indexPasses]
    cases hfind : indexById.find pass.id with
    | some index => trivial
    | none =>
      have hnew : ∀ earlier ∈ done, earlier.id ≠ pass.id := by
        intro earlier hmem heq
        obtain ⟨i, hi⟩ := mem_iff_getElem?.mp hmem
        rw [(h.find pass.id i).mpr ⟨earlier, hi, heq⟩] at hfind
        cases hfind
      have hnext : Indexed (done ++ [pass]) (indexById.insert pass.id done.length) := by
        refine ⟨?_, fun id i => ?_⟩
        · grind [h.nodup]
        · grind [Map.find_insert, h.find]
      grind

end Index

section Explicit

variable {graph : RenderGraph} {indexById : Map PassId Nat} {edges : OrdSet Edge} {k : Nat}

theorem passEdges_ends {id : PassId} {dependsOn : List PassId} :
    Ends (fun t => ∀ e, e ∈ t ↔ e ∈ edges ∨ (ofLex e).2 = k ∧ ∃ d ∈ dependsOn, indexById.find d = some (ofLex e).1)
      (passEdges indexById id k edges dependsOn) := by
  induction dependsOn generalizing edges with
  | nil => exact fun e => by simp
  | cons d rest ih =>
    rw [passEdges]
    cases hfind : indexById.find d with
    | none => trivial
    | some before =>
      refine ih.mono fun t ht e => ?_
      have hsame : e = toLex (before, k) ↔ (ofLex e).1 = before ∧ (ofLex e).2 = k :=
        (Equiv.eq_symm_apply toLex.symm).trans Prod.ext_iff
      grind [OrdSet.mem_insert]

/-- The dependencies that the passes before `k` name themselves. -/
def Named (graph : RenderGraph) (k : Nat) (edges : OrdSet Edge) : Prop :=
  ∀ a b, toLex (a, b) ∈ edges ↔ b < k ∧ ∃ pass, graph.passes[b]? = some pass ∧
    ∃ earlier, graph.passes[a]? = some earlier ∧ earlier.id ∈ pass.dependsOn

theorem explicitEdges_ends (hi : Indexed graph.passes indexById) {rest : List RenderPass} (hrest : graph.passes.drop k = rest)
    (h : Named graph k edges) : Ends (Named graph (k + rest.length)) (explicitEdges indexById k edges rest) := by
  induction rest generalizing k edges with
  | nil => exact h
  | cons pass rest ih =>
    have hget : graph.passes[k]? = some pass := by rw [← head?_drop, hrest]; rfl
    have htail : graph.passes.drop (k + 1) = rest := by rw [← drop_drop, hrest]; rfl
    refine passEdges_ends.bind fun edges' hedges => ?_
    have hnext : Named graph (k + 1) edges' := by
      intro a b
      rw [hedges, h a b, Nat.lt_succ_iff_lt_or_eq]
      constructor
      · rintro (⟨hlt, hdep⟩ | ⟨rfl, d, hd, hfind⟩)
        · exact ⟨.inl hlt, hdep⟩
        · obtain ⟨earlier, hearlier, rfl⟩ := (hi.find d a).mp hfind
          exact ⟨.inr rfl, pass, hget, earlier, hearlier, hd⟩
      · rintro ⟨hlt | rfl, p, hp, earlier, hearlier, hd⟩
        · grind
        · obtain rfl := Option.some.inj (hget.symm.trans hp)
          exact .inr ⟨rfl, earlier.id, hd, (hi.find _ a).mpr ⟨earlier, hearlier, rfl⟩⟩
    grind

end Explicit

section Prior

variable {graph : RenderGraph} {r : ResourceId} {k a : Nat} {usage : ResourceUse}

theorem prior_cases (graph : RenderGraph) (r : ResourceId) (k : Nat) :
    (∃ p usage, p < k ∧ graph.useAt p r = some usage ∧ (∀ i, p < i → i < k → graph.useAt i r = none) ∧
      graph.prior r k = some (some p, usage)) ∨
    (∀ i < k, graph.useAt i r = none) ∧ graph.prior r k = graph.initialPrevious.find r := by
  induction k with
  | zero => exact .inr ⟨by simp, rfl⟩
  | succ k ih =>
    cases hk : graph.useAt k r with
    | some usage => grind -linarith [prior]
    | none => grind [prior]

theorem prior_some (h : graph.prior r k = some (some a, usage)) : a < k ∧ graph.useAt a r = some usage := by
  grind [prior_cases, initialPrevious, Map.find_collect, Option.map_eq_some_iff]

theorem useAt_lt (h : graph.useAt k r = some usage) : k < graph.passes.length := by
  obtain ⟨pass, hget, _⟩ := Option.bind_eq_some_iff.mp h
  exact (List.getElem?_eq_some_iff.mp hget).1

end Prior

section Scan

variable {graph : RenderGraph} {named : OrdSet Edge} {k : Nat} {pass : RenderPass} {scan : Scan}
  {done rest : List ResourceUse} {usage : ResourceUse}

/-- The walk has gone over the passes before `k` and over `done` of pass `k`. -/
structure Scanned (graph : RenderGraph) (named : OrdSet Edge) (k : Nat) (pass : PassId) (done : List ResourceUse)
    (scan : Scan) : Prop where
  distinct : (done.map ResourceUse.resource).Nodup
  earlier : ∀ i < k, ∀ pass, graph.passes[i]? = some pass → (pass.resources.map ResourceUse.resource).Nodup
  previous : ∀ r, scan.previous.find r =
    ((done.find? fun usage => usage.resource = r).map fun usage => (some k, usage)).or (graph.prior r k)
  edges : ∀ a b, toLex (a, b) ∈ scan.edges ↔ toLex (a, b) ∈ named ∨
    (b < k ∧ ∃ pass, graph.passes[b]? = some pass ∧ ∃ usage ∈ pass.resources, ∃ earlier,
      graph.prior usage.resource b = some (some a, earlier) ∧ Clash earlier usage) ∨
    b = k ∧ ∃ usage ∈ done, ∃ earlier, graph.prior usage.resource k = some (some a, earlier) ∧ Clash earlier usage
  barriers : scan.barriers = (List.range k).flatMap graph.barriersAt ++ done.filterMap (graph.barrierFor k pass)

/-- What looking at the prior use of one more resource adds. -/
structure Followed (graph : RenderGraph) (k : Nat) (pass : PassId) (usage : ResourceUse) (scan t : Scan) : Prop where
  previous : t.previous = scan.previous
  edges : ∀ e, e ∈ t.edges ↔ e ∈ scan.edges ∨ (ofLex e).2 = k ∧ ∃ earlier,
    graph.prior usage.resource k = some (some (ofLex e).1, earlier) ∧ Clash earlier usage
  barriers : t.barriers = scan.barriers ++ (graph.barrierFor k pass usage).toList

theorem followPrior_ends {id : PassId} (hk : k < graph.passes.length)
    (hfind : scan.previous.find usage.resource = graph.prior usage.resource k) :
    Ends (Followed graph k id usage scan) (followPrior graph.passes k id usage scan) := by
  rw [followPrior, hfind]
  cases hprior : graph.prior usage.resource k with
  | none => exact ⟨rfl, by simp [hprior], by simp [barrierFor, hprior]⟩
  | some entry =>
    obtain ⟨before, earlier⟩ := entry
    dsimp only
    split
    · trivial
    by_cases hclash : Clash earlier usage
    · have hcond : (earlier.access.writes || usage.access.writes || earlier.state ≠ usage.state) = true := by
        simpa [Clash, or_assoc] using hclash
      rw [if_pos hcond]
      cases before with
      | none => exact ⟨rfl, by simp [hprior], by simp [barrierFor, hprior, hclash]⟩
      | some before =>
        obtain ⟨hlt, huse⟩ := prior_some hprior
        obtain ⟨found, hget, _⟩ := Option.bind_eq_some_iff.mp huse
        simp only [passIdAt, hget]
        refine ⟨rfl, fun e => ?_, by simp [barrierFor, hprior, hclash, hget]⟩
        have hsame : e = toLex (before, k) ↔ (ofLex e).1 = before ∧ (ofLex e).2 = k :=
          (Equiv.eq_symm_apply toLex.symm).trans Prod.ext_iff
        grind -linarith [OrdSet.mem_insert]
    · have hcond : ¬ (earlier.access.writes || usage.access.writes || earlier.state ≠ usage.state) = true := by
        simpa [Clash, or_assoc] using hclash
      rw [if_neg hcond]
      refine ⟨rfl, fun e => ?_, by simp [barrierFor, hprior, hclash]⟩
      grind

theorem Scanned.next (h : Scanned graph named k pass.id done scan) {t : Scan}
    (hnew : usage.resource ∉ done.map ResourceUse.resource) (ht : Followed graph k pass.id usage scan t) :
    Scanned graph named k pass.id (done ++ [usage])
      { t with previous := t.previous.insert usage.resource (some k, usage) } := by
  refine ⟨?_, h.earlier, fun r => ?_, fun a b => ?_, ?_⟩
  · grind [h.distinct]
  · grind [Map.find_insert, ht.previous, h.previous]
  · grind [ht.edges, h.edges, ofLex_toLex]
  grind [ht.barriers, h.barriers]

theorem scanUses_ends (hget : graph.passes[k]? = some pass) {inPass : Finset ResourceId}
    (h : Scanned graph named k pass.id done scan) (hin : ∀ r, r ∈ inPass ↔ r ∈ done.map ResourceUse.resource) :
    Ends (Scanned graph named k pass.id (done ++ rest)) (scanUses graph.passes k pass.id inPass scan rest) := by
  induction rest generalizing done scan inPass with
  | nil => simpa [scanUses, Ends] using h
  | cons usage rest ih =>
    rw [scanUses]
    split
    · trivial
    split
    · trivial
    rename_i hnew
    have hnew : usage.resource ∉ done.map ResourceUse.resource := fun hmem => hnew ((hin _).mpr hmem)
    have hfind : scan.previous.find usage.resource = graph.prior usage.resource k := by
      have hnone : (done.find? fun u => u.resource = usage.resource) = none := by
        simpa using fun u hu heq => hnew (mem_map.mpr ⟨u, hu, heq⟩)
      simp [h.previous, hnone]
    refine (followPrior_ends (List.getElem?_eq_some_iff.mp hget).1 hfind).bind fun t ht => ?_
    have hin : ∀ r, r ∈ insert usage.resource inPass ↔ r ∈ (done ++ [usage]).map ResourceUse.resource := fun r => by
      grind
    have hrest := ih (h.next hnew ht) hin
    grind

theorem Scanned.nextPass (h : Scanned graph named k pass.id pass.resources scan) (hget : graph.passes[k]? = some pass)
    (id : PassId) : Scanned graph named (k + 1) id [] scan := by
  refine ⟨nodup_nil, fun i hi p hp => ?_, fun r => ?_, fun a b => ?_, ?_⟩
  · grind -linarith +splitImp +splitIndPred
  · simp [h.previous, prior, useAt, hget]
  · grind [h.edges]
  · simp [h.barriers, range_succ, barriersAt, hget]

theorem scanPasses_ends {rest : List RenderPass} (hrest : graph.passes.drop k = rest) (id : PassId)
    (h : Scanned graph named k id [] scan) :
    Ends (Scanned graph named (k + rest.length) id []) (scanPasses graph.passes k scan rest) := by
  induction rest generalizing k scan with
  | nil => exact h
  | cons pass rest ih =>
    have hget : graph.passes[k]? = some pass := by rw [← head?_drop, hrest]; rfl
    have htail : graph.passes.drop (k + 1) = rest := by rw [← drop_drop, hrest]; rfl
    have hstart : Scanned graph named k pass.id [] scan := ⟨h.distinct, h.earlier, h.previous, h.edges, h.barriers⟩
    refine (scanUses_ends hget hstart (by simp)).bind fun t ht => ?_
    grind [ht.nextPass]

end Scan

section Compile

variable {graph : RenderGraph} {compiled : CompiledGraph} {order : List Nat}

/-- What `compile` has worked out when it accepts: the greedy order of all passes under the dependencies, and
one barrier for each use that clashes with the one before it. -/
structure Schedules (graph : RenderGraph) (compiled : CompiledGraph) (order : List Nat) : Prop where
  greedy : Greedy (· < graph.passes.length) graph.Depends order
  length : order.length = graph.passes.length
  ids : (graph.passes.map RenderPass.id).Nodup
  distinct : ∀ (i : Nat) (pass : RenderPass), graph.passes[i]? = some pass → (pass.resources.map ResourceUse.resource).Nodup
  ordered : compiled.orderedPasses = order.filterMap fun i => graph.passes[i]?.map RenderPass.id
  barriers : compiled.barriers = (List.range graph.passes.length).flatMap graph.barriersAt

theorem checkInitialStates_ends (entries : List (ResourceId × ResourceKind × ResourceState)) :
    Ends (fun _ => True) (checkInitialStates entries) := by
  induction entries with
  | nil => trivial
  | cons entry rest ih =>
    rw [checkInitialStates]
    split
    · trivial
    · exact ih

theorem mapM_passIdAt_ends {passes : List RenderPass} (h : ∀ i ∈ order, i < passes.length) :
    Ends (fun ids => ids = order.filterMap fun i => passes[i]?.map RenderPass.id) (order.mapM (passIdAt passes)) := by
  induction order with
  | nil => rfl
  | cons i rest ih =>
    simp only [mem_cons, forall_eq_or_imp] at h
    have hget : passes[i]? = some passes[i] := getElem?_eq_getElem h.1
    rw [mapM_cons]
    have hid : Ends (fun id => id = passes[i].id) (passIdAt passes i) := by
      rw [passIdAt, hget]
      rfl
    refine hid.bind ?_
    rintro id rfl
    refine (ih h.2).bind ?_
    simp [hget, Ends, pure, Except.pure]

theorem Depends.lt {a b : Nat} (h : graph.Depends a b) : a < graph.passes.length ∧ b < graph.passes.length := by
  obtain ⟨pass, hget, ⟨earlier, hearlier, _⟩ | ⟨usage, _, earlier, hprior, _⟩⟩ := h
  · grind
  · exact ⟨useAt_lt (prior_some hprior).2, (List.getElem?_eq_some_iff.mp hget).1⟩

/-- `compile` comes back for every graph. -/
theorem compile_ends (graph : RenderGraph) : Ends (fun compiled => ∃ order, Schedules graph compiled order) graph.compile := by
  refine (checkInitialStates_ends _).bind fun _ _ => ?_
  have hempty : Indexed [] Map.empty := ⟨nodup_nil, by simp⟩
  refine (indexPasses_ends hempty).bind fun indexById hindex => ?_
  have hnone : Named graph 0 OrdSet.empty := fun a b => by simp
  refine (explicitEdges_ends hindex drop_zero hnone).bind fun named hnamed => ?_
  rw [Nat.zero_add] at hnamed
  have hstart : Scanned graph named 0 ⟨0⟩ [] ⟨named, [], graph.initialPrevious⟩ :=
    ⟨nodup_nil, by simp, fun r => by simp [prior], fun a b => by simp, rfl⟩
  refine (scanPasses_ends drop_zero _ hstart).bind fun scan hscan => ?_
  rw [Nat.zero_add] at hscan
  have hedges : Joins scan.edges.elems = graph.Depends := by
    funext a b
    have hlt : ∀ {pass}, graph.passes[b]? = some pass → b < graph.passes.length := fun hget =>
      (List.getElem?_eq_some_iff.mp hget).1
    apply propext
    rw [Joins, OrdSet.mem_elems, hscan.edges, hnamed a b]
    constructor
    · rintro (⟨_, pass, hget, hdep⟩ | ⟨_, pass, hget, hdep⟩ | ⟨_, _, hmem, _⟩)
      · exact ⟨pass, hget, .inl hdep⟩
      · exact ⟨pass, hget, .inr hdep⟩
      · cases hmem
    · rintro ⟨pass, hget, hdep | hdep⟩
      · exact .inl ⟨hlt hget, pass, hget, hdep⟩
      · exact .inr (.inl ⟨hlt hget, pass, hget, hdep⟩)
  have hbound : ∀ e ∈ scan.edges, (ofLex e).1 < graph.passes.length ∧ (ofLex e).2 < graph.passes.length := by
    intro e he
    have hdep : Joins scan.edges.elems (ofLex e).1 (ofLex e).2 := he
    rw [hedges] at hdep
    exact hdep.lt
  refine (topologicalOrder_ends hbound).bind ?_
  rintro order ⟨hgreedy, hlength⟩
  rw [hedges] at hgreedy
  refine (mapM_passIdAt_ends fun i hi => hgreedy.nodes_of_mem hi).bind ?_
  rintro ids rfl
  refine ⟨order, hgreedy, hlength, hindex.nodup, fun i pass hget => ?_, rfl, by simpa using hscan.barriers⟩
  grind [hscan.earlier]

end Compile

end TensorDE.Renderer.RenderGraph
