import Mathlib.Data.List.Flatten
import Mathlib.Logic.Relation
import TensorDE.Kdl.Query

set_option linter.dupNamespace false

namespace TensorDE.Kdl.Query

open Utf8 List

section Tree

variable {β : Type} {path : List Nat} {nodes : List Node} {r q : Ref} {f : List Ref → Ref → List β}

def Child (r q : Ref) : Prop := q ∈ r.children

theorem mem_refs : q ∈ refs path nodes ↔ ∃ k n, nodes[k]? = some n ∧ q = ⟨path ++ [k], n⟩ := by
  grind [refs]

theorem Ref.induct {P : Ref → Prop} (h : ∀ r, (∀ q, Child r q → P q) → P r) (r : Ref) : P r := by
  obtain ⟨path, node⟩ := r
  induction hsize : sizeOf node using Nat.strongRecOn generalizing path node with
  | _ size ih =>
    refine h _ fun q hq => ?_
    obtain ⟨k, n, hn, rfl⟩ := mem_refs.mp hq
    have hmem : n ∈ node.children := mem_of_getElem? hn
    have hlt := sizeOf_lt_of_mem hmem
    cases node with
    | mk typeName name entries children => grind

variable (siblings : List Ref)

theorem visitAll_eq (k : Nat) : visitAll f siblings path k nodes =
      (nodes.mapIdx fun j n => (⟨path ++ [k + j], n⟩ : Ref)).flatMap fun r => visit f siblings r.path r.node := by
  induction nodes generalizing k with
  | nil => rfl
  | cons n nodes ih =>
    rw [visitAll, ih, mapIdx_cons, flatMap_cons]
    grind

theorem visitAll_refs :
    visitAll f siblings path 0 nodes = (refs path nodes).flatMap fun r => visit f siblings r.path r.node := by
  simp only [visitAll_eq, Nat.zero_add, refs]

theorem visit_eq (r : Ref) : visit f siblings r.path r.node =
      f siblings r ++ r.children.flatMap fun q => visit f r.children q.path q.node := by
  obtain ⟨path, typeName, name, entries, children⟩ := r
  rw [visit, visitAll_refs]
  rfl

theorem visitRoots_eq (roots : List Node) :
    visitRoots f roots = (refs [] roots).flatMap fun r => visit f (refs [] roots) r.path r.node :=
  visitAll_refs _

/-- `q` stands in the slice `s`, in the walk from `r` that stands in `siblings`. -/
inductive Under : List Ref → Ref → List Ref → Ref → Prop
  | self (siblings : List Ref) (r : Ref) : Under siblings r siblings r
  | child {siblings s : List Ref} {r c q : Ref} (hc : Child r c) (h : Under r.children c s q) : Under siblings r s q

variable {siblings : List Ref}

theorem mem_visit {b : β} : b ∈ visit f siblings r.path r.node ↔ ∃ s q, Under siblings r s q ∧ b ∈ f s q := by
  induction r using Ref.induct generalizing siblings with
  | _ r ih =>
    rw [visit_eq, mem_append, mem_flatMap]
    constructor
    · rintro (hb | ⟨c, hc, hb⟩)
      · exact ⟨_, _, .self _ _, hb⟩
      · obtain ⟨s, q, hq, hb⟩ := (ih c hc).mp hb
        exact ⟨s, q, .child hc hq, hb⟩
    · rintro ⟨s, q, hq, hb⟩
      cases hq with
      | self => exact .inl hb
      | child hc h => exact .inr ⟨_, hc, (ih _ hc).mpr ⟨s, q, h, hb⟩⟩

def Descends : Ref → Ref → Prop := Relation.ReflTransGen Child

variable {s : List Ref}

theorem Under.descends (h : Under siblings r s q) : Descends r q := by
  induction h with
  | self => exact .refl
  | child hc _ ih => exact .head hc ih

theorem Descends.under (h : Descends r q) (siblings : List Ref) : ∃ s, Under siblings r s q := by
  induction h using Relation.ReflTransGen.head_induction_on generalizing siblings with
  | refl => exact ⟨siblings, .self _ _⟩
  | head hc _ ih =>
    obtain ⟨s, hs⟩ := ih _
    exact ⟨s, .child hc hs⟩

end Tree

section Order

variable {path : List Nat} {nodes roots : List Node} {r q : Ref}

def pathsFrom (siblings : List Ref) (r : Ref) : List (List Nat) := visit (fun _ r => [r.path]) siblings r.path r.node

theorem lt_of_append {p t : List Nat} (h : t ≠ []) : p < p ++ t := by
  cases t with
  | nil => exact absurd rfl h
  | cons k t =>
    have hlt : p ++ [] < p ++ k :: t := append_left_lt (nil_lt_cons k t)
    rwa [append_nil] at hlt

theorem Descends.extends_path (h : Descends r q) : r.path <+: q.path := by
  induction h with
  | refl => exact prefix_refl _
  | tail _ hc ih =>
    obtain ⟨k, n, -, rfl⟩ := mem_refs.mp hc
    exact ih.trans (prefix_append _ _)

variable {p : List Nat}

theorem mem_pathsFrom {siblings : List Ref} : p ∈ pathsFrom siblings r ↔ ∃ q, Descends r q ∧ p = q.path := by
  rw [pathsFrom, mem_visit]
  constructor
  · rintro ⟨s, q, hq, hp⟩
    grind [hq.descends]
  · rintro ⟨q, hq, rfl⟩
    obtain ⟨s, hs⟩ := hq.under siblings
    exact ⟨s, q, hs, mem_singleton.mpr rfl⟩

theorem refs_ordered : (refs path nodes).Pairwise fun a b => ∀ p p', a.path <+: p → b.path <+: p' → p < p' := by
  rw [pairwise_iff_getElem]
  rintro i j hi hj hij p p' ⟨t, rfl⟩ ⟨t', rfl⟩
  grind [refs, append_left_lt, cons_lt_cons_iff]

theorem pathsFrom_ordered (siblings : List Ref) (r : Ref) : (pathsFrom siblings r).Pairwise (· < ·) := by
  induction r using Ref.induct generalizing siblings with
  | _ r ih =>
    rw [pathsFrom, visit_eq, singleton_append, pairwise_cons]
    refine ⟨fun p hp => ?_, pairwise_flatMap.mpr ⟨fun q hq => ih q hq _, ?_⟩⟩
    · obtain ⟨c, hc, hp⟩ := mem_flatMap.mp hp
      obtain ⟨q, hq, rfl⟩ := (mem_pathsFrom).mp hp
      obtain ⟨k, n, -, rfl⟩ := mem_refs.mp hc
      obtain ⟨t, ht⟩ := hq.extends_path
      grind [lt_of_append]
    · refine refs_ordered.imp fun {a b} hab p hp p' hp' => ?_
      obtain ⟨q, hq, rfl⟩ := (mem_pathsFrom).mp hp
      obtain ⟨q', hq', rfl⟩ := (mem_pathsFrom).mp hp'
      exact hab _ _ hq.extends_path hq'.extends_path

def InDoc (roots : List Node) (q : Ref) : Prop := ∃ r ∈ refs [] roots, Descends r q

def docPaths (roots : List Node) : List (List Nat) := visitRoots (fun _ r => [r.path]) roots

theorem docPaths_ordered (roots : List Node) : (docPaths roots).Pairwise (· < ·) := by
  rw [docPaths, visitRoots_eq, pairwise_flatMap]
  refine ⟨fun r _ => pathsFrom_ordered _ r, refs_ordered.imp fun {a b} hab p hp p' hp' => ?_⟩
  obtain ⟨q, hq, rfl⟩ := (mem_pathsFrom).mp hp
  obtain ⟨q', hq', rfl⟩ := (mem_pathsFrom).mp hp'
  exact hab _ _ hq.extends_path hq'.extends_path

theorem mem_docPaths : p ∈ docPaths roots ↔ ∃ q, InDoc roots q ∧ p = q.path := by
  rw [docPaths, visitRoots_eq, mem_flatMap]
  constructor
  · rintro ⟨r, hr, hp⟩
    obtain ⟨q, hq, hp⟩ := (mem_pathsFrom).mp hp
    exact ⟨q, ⟨r, hr, hq⟩, hp⟩
  · rintro ⟨q, ⟨r, hr, hq⟩, hp⟩
    exact ⟨r, hr, (mem_pathsFrom).mpr ⟨q, hq, hp⟩⟩

theorem orderOf_eq {k : Nat} (h : (docPaths roots)[k]? = some p) : orderOf roots p = k := by
  have hmem : (p, k) ∈ (docPaths roots).zipIdx := mk_mem_zipIdx_iff_getElem?.mpr h
  have hlookup : (docPaths roots).zipIdx.lookup p = some k := by
    obtain ⟨l, l', hl⟩ := append_of_mem hmem
    rw [hl, lookup_eq_some_iff]
    refine ⟨l, l', rfl, fun x hx => ?_⟩
    have hnodup : ((docPaths roots).zipIdx.map Prod.fst).Nodup := by
      rw [zipIdx_map_fst]
      exact (docPaths_ordered roots).imp fun hlt => ne_of_lt hlt
    rw [hl, map_append, map_cons, nodup_append] at hnodup
    rw [bne_iff_ne]
    exact (hnodup.2.2 x.1 (mem_map_of_mem hx) p (mem_cons_self ..)).symm
  change ((docPaths roots).zipIdx.lookup p).getD _ = k
  rw [hlookup]
  rfl

theorem path_le_of_order (hr : InDoc roots r) (hq : InDoc roots q)
    (h : orderOf roots r.path ≤ orderOf roots q.path) : r.path ≤ q.path := by
  obtain ⟨i, hi⟩ := getElem?_of_mem ((mem_docPaths).mpr ⟨r, hr, rfl⟩)
  obtain ⟨j, hj⟩ := getElem?_of_mem ((mem_docPaths).mpr ⟨q, hq, rfl⟩)
  rw [orderOf_eq hi, orderOf_eq hj] at h
  obtain ⟨hi', hri⟩ := List.getElem?_eq_some_iff.mp hi
  obtain ⟨hj', hqj⟩ := List.getElem?_eq_some_iff.mp hj
  obtain rfl | hlt := Nat.eq_or_lt_of_le h
  · rw [← hri, hqj]
  · have := pairwise_iff_getElem.mp (docPaths_ordered roots) i j hi' hj' hlt
    rw [hri, hqj] at this
    exact this.le

def docRefs (roots : List Node) : List Ref := visitRoots (fun _ r => [r]) roots

theorem mem_docRefs : r ∈ docRefs roots ↔ InDoc roots r := by
  rw [docRefs, visitRoots_eq, mem_flatMap]
  constructor
  · rintro ⟨root, hroot, hr⟩
    obtain ⟨s, q, hq, hr⟩ := mem_visit.mp hr
    obtain rfl := mem_singleton.mp hr
    exact ⟨root, hroot, hq.descends⟩
  · rintro ⟨root, hroot, hr⟩
    obtain ⟨s, hs⟩ := hr.under (refs [] roots)
    exact ⟨root, hroot, mem_visit.mpr ⟨s, r, hs, mem_singleton.mpr rfl⟩⟩

theorem map_path_docRefs (roots : List Node) : (docRefs roots).map Ref.path = docPaths roots := by
  have hvisit : ∀ siblings r, (visit (fun _ r => [r]) siblings r.path r.node).map Ref.path = pathsFrom siblings r := by
    intro siblings r
    induction r using Ref.induct generalizing siblings with
    | _ r ih =>
      rw [pathsFrom, visit_eq, visit_eq, map_append, map_flatMap]
      exact congrArg _ (flatMap_congr fun q hq => ih q hq _)
  rw [docRefs, docPaths, visitRoots_eq, visitRoots_eq, map_flatMap]
  exact flatMap_congr fun r _ => hvisit _ r

theorem docRefs_ordered (roots : List Node) : (docRefs roots).Pairwise fun a b => a.path < b.path := by
  rw [← pairwise_map, map_path_docRefs]
  exact docPaths_ordered roots

theorem InDoc.eq_of_path (hr : InDoc roots r) (hq : InDoc roots q) (h : r.path = q.path) : r = q := by
  refine inj_on_of_nodup_map ?_ ((mem_docRefs).mpr hr) ((mem_docRefs).mpr hq) h
  grind [map_path_docRefs, docPaths_ordered]

end Order

section Siblings

variable {roots : List Node} {r q : Ref} {s : List Ref}

def Slices (roots : List Node) (s : List Ref) : Prop := s = refs [] roots ∨ ∃ p, InDoc roots p ∧ s = p.children

theorem InDoc.child (h : InDoc roots r) (hq : Child r q) : InDoc roots q := by
  obtain ⟨root, hroot, hr⟩ := h
  exact ⟨root, hroot, hr.tail hq⟩

theorem InDoc.descends (h : InDoc roots r) (hq : Descends r q) : InDoc roots q := by
  obtain ⟨root, hroot, hr⟩ := h
  exact ⟨root, hroot, hr.trans hq⟩

theorem Slices.inDoc (h : Slices roots s) (hq : q ∈ s) : InDoc roots q := by
  obtain rfl | ⟨p, hp, rfl⟩ := h
  · exact ⟨q, hq, .refl⟩
  · exact hp.child hq

theorem Under.tail {siblings : List Ref} {c : Ref} (h : Under siblings r s q) (hc : Child q c) :
    Under siblings r q.children c := by
  induction h with
  | self => exact .child hc (.self _ _)
  | child hd _ ih => exact .child hd (ih hc)

theorem Slices.visited (h : Slices roots s) (hq : q ∈ s) : ∃ root ∈ refs [] roots, Under (refs [] roots) root s q := by
  obtain rfl | ⟨p, ⟨root, hroot, hp⟩, rfl⟩ := h
  · exact ⟨q, hq, .self _ _⟩
  · obtain ⟨s, hs⟩ := hp.under (refs [] roots)
    exact ⟨root, hroot, hs.tail hq⟩

theorem InDoc.slices (h : InDoc roots q) : ∃ s, Slices roots s ∧ q ∈ s := by
  obtain ⟨root, hroot, hq⟩ := h
  cases hq with
  | refl => exact ⟨_, .inl rfl, hroot⟩
  | tail hp hc => exact ⟨_, .inr ⟨_, ⟨root, hroot, hp⟩, rfl⟩, hc⟩

theorem Slices.eq_refs (h : Slices roots s) : ∃ path nodes, s = refs path nodes := by
  obtain rfl | ⟨p, -, rfl⟩ := h
  · exact ⟨_, _, rfl⟩
  · exact ⟨_, _, rfl⟩

variable {k : Nat}

theorem position_eq {path : List Nat} {nodes : List Node} (h : (refs path nodes)[k]? = some r) :
    (refs path nodes).findIdx? (fun candidate => candidate.path = r.path) = some k := by
  have hpath : ∀ j (hj : j < (refs path nodes).length), (refs path nodes)[j].path = path ++ [j] := by
    simp [refs]
  obtain ⟨hk, rfl⟩ := List.getElem?_eq_some_iff.mp h
  rw [findIdx?_eq_some_iff_getElem]
  refine ⟨hk, by simp, fun j hj => ?_⟩
  rw [hpath k hk, hpath j (hj.trans hk)]
  simp
  omega

theorem lookup_siblings (h : Slices roots s) (hk : s[k]? = some r) :
    (siblingMap roots).lookup r.path = some (s, k) := by
  have hmem : (r.path, s, k) ∈ siblingMap roots := by
    obtain ⟨root, hroot, hunder⟩ := h.visited (mem_of_getElem? hk)
    obtain ⟨path, nodes, rfl⟩ := h.eq_refs
    rw [siblingMap, visitRoots_eq, mem_flatMap]
    refine ⟨root, hroot, mem_visit.mpr ⟨_, r, hunder, ?_⟩⟩
    rw [position_eq hk]
    exact mem_singleton.mpr rfl
  have hsub : ∀ f : List Ref → Ref → List (List Nat × List Ref × Nat),
      (∀ siblings r, ((f siblings r).map Prod.fst).Sublist [r.path]) →
      ∀ siblings r, ((visit f siblings r.path r.node).map Prod.fst).Sublist (pathsFrom siblings r) := by
    intro f hone siblings r
    induction r using Ref.induct generalizing siblings with
    | _ r ih =>
      rw [pathsFrom, visit_eq, visit_eq, map_append, map_flatMap]
      exact List.Sublist.append (hone siblings r) (List.Sublist.flatMap_right _ fun q hq => ih q hq _)
  have hnodup : ((siblingMap roots).map Prod.fst).Nodup := by
    rw [siblingMap, visitRoots_eq, map_flatMap]
    refine (List.Sublist.flatMap_right _ fun r _ => hsub _ (fun siblings r => ?_) _ r).nodup ?_
    · cases siblings.findIdx? fun candidate => candidate.path = r.path with
      | none => exact nil_sublist _
      | some index => exact List.Sublist.refl _
    · have := (docPaths_ordered roots).imp fun {a b} hlt => ne_of_lt hlt
      rwa [docPaths, visitRoots_eq] at this
  obtain ⟨l, l', hl⟩ := append_of_mem hmem
  rw [hl, lookup_eq_some_iff]
  refine ⟨l, l', rfl, fun x hx => ?_⟩
  rw [hl, map_append, map_cons, nodup_append] at hnodup
  rw [bne_iff_ne]
  exact (hnodup.2.2 x.1 (mem_map_of_mem hx) r.path (mem_cons_self ..)).symm

end Siblings

section Semantics

variable (nodeMatches : Node → Str → Bool) (roots : List Node)

def Leads : Operator → Ref → Ref → Prop
  | .child, r, q => Child r q
  | .descendant, r, q => Relation.TransGen Child r q
  | .immediateSibling, r, q => ∃ (s : List Ref) (k : Nat), Slices roots s ∧ s[k]? = some r ∧ s[k + 1]? = some q
  | .generalSibling, r, q => ∃ (s : List Ref) (k l : Nat), Slices roots s ∧ s[k]? = some r ∧ k < l ∧ s[l]? = some q

def Follows : List (Operator × Str) → Ref → Ref → Prop
  | [], r, q => r = q
  | (op, filter) :: steps, r, q => ∃ m, Leads roots op r m ∧ nodeMatches m.node filter = true ∧ Follows steps m q

def Selected (filters : List Str) (operators : List Operator) (q : Ref) : Prop :=
  match filters with
  | [] => False
  | first :: filters =>
    if first = topFilter then
      match operators.zip filters with
      | [] => q ∈ refs [] roots
      | (.child, filter) :: steps =>
        ∃ r ∈ refs [] roots, nodeMatches r.node filter = true ∧ Follows nodeMatches roots steps r q
      | (.descendant, filter) :: steps =>
        ∃ r, InDoc roots r ∧ nodeMatches r.node filter = true ∧ Follows nodeMatches roots steps r q
      | _ => False
    else
      ∃ r, InDoc roots r ∧ nodeMatches r.node first = true ∧
        Follows nodeMatches roots (operators.zip filters) r q

variable {nodeMatches roots} {filter : Str} {r q : Ref}

theorem mem_collect : q ∈ collectMatching nodeMatches filter r ↔ Descends r q ∧ nodeMatches q.node filter = true := by
  rw [collectMatching, mem_visit]
  constructor
  · rintro ⟨s, m, hm, hq⟩
    grind +splitImp +splitIndPred [hm.descends]
  · rintro ⟨hq, hmatch⟩
    obtain ⟨s, hs⟩ := hq.under []
    grind

theorem mem_everywhere :
    q ∈ everywhere nodeMatches roots filter ↔ InDoc roots q ∧ nodeMatches q.node filter = true := by
  rw [everywhere, mem_flatMap]
  constructor
  · rintro ⟨r, hr, hq⟩
    obtain ⟨hq, hmatch⟩ := mem_collect.mp hq
    exact ⟨⟨r, hr, hq⟩, hmatch⟩
  · rintro ⟨⟨r, hr, hq⟩, hmatch⟩
    exact ⟨r, hr, mem_collect.mpr ⟨hq, hmatch⟩⟩

theorem mem_matching {s : List Ref} : q ∈ matching nodeMatches filter s ↔ q ∈ s ∧ nodeMatches q.node filter = true :=
  mem_filter

theorem mem_candidates (hr : InDoc roots r) (op : Operator) :
    q ∈ candidates nodeMatches roots op filter r ↔ Leads roots op r q ∧ nodeMatches q.node filter = true := by
  obtain ⟨s, hs, hrs⟩ := hr.slices
  obtain ⟨k, hk⟩ := getElem?_of_mem hrs
  have hunique : ∀ s' k', Slices roots s' → s'[k']? = some r → s' = s ∧ k' = k := by
    intro s' k' hs' hk'
    have := lookup_siblings hs' hk'
    rw [lookup_siblings hs hk, Option.some_inj, Prod.mk.injEq] at this
    exact ⟨this.1.symm, this.2.symm⟩
  cases op with
  | child => exact mem_matching
  | descendant =>
    rw [candidates, mem_flatMap, Leads, Relation.TransGen.head'_iff]
    constructor
    · rintro ⟨c, hc, hq⟩
      obtain ⟨hq, hmatch⟩ := mem_collect.mp hq
      exact ⟨⟨c, hc, hq⟩, hmatch⟩
    · rintro ⟨⟨c, hc, hq⟩, hmatch⟩
      exact ⟨c, hc, mem_collect.mpr ⟨hq, hmatch⟩⟩
  | immediateSibling =>
    rw [candidates, lookup_siblings hs hk]
    grind +splitImp +splitIndPred [mem_matching, Leads]
  | generalSibling =>
    rw [candidates, lookup_siblings hs hk]
    rw [mem_matching, Leads]
    refine and_congr_left' ⟨fun hq => ?_, ?_⟩
    · grind +splitImp +splitIndPred [getElem?_of_mem]
    · rintro ⟨s', k', l, hs', hk', hl, hq⟩
      obtain ⟨rfl, rfl⟩ := hunique s' k' hs' hk'
      rw [mem_iff_getElem?]
      exact ⟨l - (k' + 1), by rw [getElem?_drop, ← hq]; congr 1; omega⟩

theorem Leads.inDoc {op : Operator} (h : Leads roots op r q) (hr : InDoc roots r) : InDoc roots q := by
  cases op with
  | child => exact hr.child h
  | descendant => exact hr.descends h.to_reflTransGen
  | immediateSibling =>
    obtain ⟨s, k, hs, -, hq⟩ := h
    exact hs.inDoc (mem_of_getElem? hq)
  | generalSibling =>
    obtain ⟨s, k, l, hs, -, -, hq⟩ := h
    exact hs.inDoc (mem_of_getElem? hq)

variable {steps : List (Operator × Str)}

theorem mem_followSteps {current : List Ref} (h : ∀ r ∈ current, InDoc roots r) :
    q ∈ followSteps nodeMatches roots steps current ↔ ∃ r ∈ current, Follows nodeMatches roots steps r q := by
  induction steps generalizing current with
  | nil =>
    refine ⟨fun hq => ⟨q, hq, rfl⟩, ?_⟩
    rintro ⟨r, hr, hq⟩
    exact hq ▸ hr
  | cons step steps ih =>
    obtain ⟨op, filter⟩ := step
    have hnext : ∀ m ∈ current.flatMap (candidates nodeMatches roots op filter), InDoc roots m := by
      intro m hm
      obtain ⟨r, hr, hm⟩ := mem_flatMap.mp hm
      exact ((mem_candidates (h r hr) op).mp hm).1.inDoc (h r hr)
    rw [followSteps, ih hnext]
    constructor
    · rintro ⟨m, hm, hq⟩
      obtain ⟨r, hr, hm⟩ := mem_flatMap.mp hm
      obtain ⟨hlead, hmatch⟩ := (mem_candidates (h r hr) op).mp hm
      exact ⟨r, hr, m, hlead, hmatch, hq⟩
    · rintro ⟨r, hr, m, hlead, hmatch, hq⟩
      grind [mem_candidates]

theorem Follows.inDoc (h : Follows nodeMatches roots steps r q) (hr : InDoc roots r) : InDoc roots q := by
  induction steps generalizing r with
  | nil => exact h ▸ hr
  | cons step steps ih =>
    obtain ⟨m, hlead, -, hq⟩ := h
    exact ih hq (hlead.inDoc hr)

theorem root_inDoc (h : r ∈ refs [] roots) : InDoc roots r := ⟨r, h, .refl⟩

theorem mem_selectArm {selector : Str} : q ∈ selectArm nodeMatches roots selector ↔
      ∃ filters operators, parseChain selector = some (filters, operators) ∧
        Selected nodeMatches roots filters operators q := by
  rw [selectArm]
  cases hparse : parseChain selector with
  | none => simp
  | some chain =>
    obtain ⟨filters, operators⟩ := chain
    cases filters with
    | nil =>
      simp only [not_mem_nil, false_iff]
      rintro ⟨filters, ops, ⟨rfl, rfl⟩, h⟩
      exact h
    | cons first filters =>
      have hone : (∃ fs ops, some (first :: filters, operators) = some (fs, ops) ∧ Selected nodeMatches roots fs ops q) ↔
          Selected nodeMatches roots (first :: filters) operators q := by simp
      rw [hone, Selected]
      simp only [start.eq_def]
      have hroots : ∀ filter, ∀ r ∈ matching nodeMatches filter (refs [] roots), InDoc roots r :=
        fun filter r hr => root_inDoc (mem_matching.mp hr).1
      by_cases htop : first = topFilter
      · simp only [if_pos htop]
        cases operators.zip filters with
        | nil => exact Iff.rfl
        | cons step steps => grind +splitImp +splitIndPred [mem_followSteps, mem_matching, mem_everywhere]
      grind [mem_followSteps, mem_everywhere]

theorem Selected.inDoc {filters : List Str} {operators : List Operator}
    (h : Selected nodeMatches roots filters operators q) : InDoc roots q := by
  cases filters with
  | nil => exact h.elim
  | cons first filters =>
    rw [Selected] at h
    split at h
    · cases hsteps : operators.zip filters with
      | nil =>
        rw [hsteps] at h
        exact root_inDoc h
      | cons step steps =>
        obtain ⟨op, filter⟩ := step
        rw [hsteps] at h
        cases op with
        | child =>
          obtain ⟨r, hr, -, hq⟩ := h
          exact hq.inDoc (root_inDoc hr)
        | descendant =>
          obtain ⟨r, hr, -, hq⟩ := h
          exact hq.inDoc hr
        | immediateSibling => exact h.elim
        | generalSibling => exact h.elim
    · obtain ⟨r, hr, -, hq⟩ := h
      exact hq.inDoc hr

theorem retainUnseen_spec (seen : List (List Nat)) (l : List Ref) : (∀ r ∈ retainUnseen seen l, r ∈ l ∧ r.path ∉ seen) ∧
      (∀ r ∈ l, r.path ∉ seen → ∃ q ∈ retainUnseen seen l, q.path = r.path) ∧
      (retainUnseen seen l).Pairwise fun a b => a.path ≠ b.path := by
  induction l generalizing seen with
  | nil => simp [retainUnseen]
  | cons r l ih =>
    rw [retainUnseen]
    split
    next hseen => grind
    next hseen =>
      obtain ⟨hmem, hall, hpair⟩ := ih (r.path :: seen)
      refine ⟨fun q hq => ?_, fun q hq hnot => ?_, pairwise_cons.mpr ⟨fun q hq heq => ?_, hpair⟩⟩
      · grind
      · grind
      grind

theorem queryRoots_exact (nodeMatches : Node → Str → Bool) (roots : List Node) (selector : Str) :
    (∀ r, r ∈ queryRoots nodeMatches roots selector ↔
      ∃ arm ∈ splitUnion (trim selector), ∃ filters operators, parseChain arm = some (filters, operators) ∧
        Selected nodeMatches roots filters operators r) ∧
      (queryRoots nodeMatches roots selector).Sublist (docRefs roots) := by
  obtain ⟨hmem, hall, hpair⟩ := retainUnseen_spec [] ((splitUnion (trim selector)).flatMap (selectArm nodeMatches roots))
  have hfound : ∀ r, r ∈ (splitUnion (trim selector)).flatMap (selectArm nodeMatches roots) ↔
      ∃ arm ∈ splitUnion (trim selector), ∃ filters operators, parseChain arm = some (filters, operators) ∧
        Selected nodeMatches roots filters operators r := fun r => by
    simp only [mem_flatMap, mem_selectArm]
  have hdoc : ∀ r, r ∈ (splitUnion (trim selector)).flatMap (selectArm nodeMatches roots) → InDoc roots r := by
    intro r hr
    obtain ⟨arm, -, filters, operators, -, hr⟩ := (hfound r).mp hr
    exact hr.inDoc
  have hquery : ∀ r, r ∈ queryRoots nodeMatches roots selector ↔
      r ∈ (splitUnion (trim selector)).flatMap (selectArm nodeMatches roots) := by
    intro r
    rw [queryRoots, mem_mergeSort]
    refine ⟨fun hr => (hmem r hr).1, fun hr => ?_⟩
    obtain ⟨q, hq, heq⟩ := hall r hr (not_mem_nil)
    rwa [← (hdoc q (hmem q hq).1).eq_of_path (hdoc r hr) heq]
  refine ⟨fun r => (hquery r).trans (hfound r), ?_⟩
  have hle : (queryRoots nodeMatches roots selector).Pairwise fun a b => a.path ≤ b.path := by
    have hsorted : (queryRoots nodeMatches roots selector).Pairwise fun a b =>
        decide (orderOf roots a.path ≤ orderOf roots b.path) = true :=
      pairwise_mergeSort (fun a b c hab hbc => by simp only [decide_eq_true_eq] at *; omega)
        (fun a b => by simpa using le_total (orderOf roots a.path) (orderOf roots b.path)) _
    refine List.Pairwise.imp_of_mem (fun {a b} ha hb hab => ?_) hsorted
    exact path_le_of_order (hdoc a ((hquery a).mp ha)) (hdoc b ((hquery b).mp hb)) (by simpa using hab)
  have hne : (queryRoots nodeMatches roots selector).Pairwise fun a b => a.path ≠ b.path :=
    (mergeSort_perm _ _).symm.pairwise hpair fun h => h.symm
  have hlt := (hle.and hne).imp fun {a b} h => lt_of_le_of_ne h.1 h.2
  refine sublist_of_subperm_of_pairwise ?_ hlt (docRefs_ordered roots)
  exact subperm_of_subset (hne.imp fun h heq => h (congrArg _ heq)) fun r hr =>
    (mem_docRefs).mpr (hdoc r ((hquery r).mp hr))

/-- A query answers with the nodes its chains select and no others, as they come
in the document, each once. -/
theorem query_exact (nodeMatches : Node → Str → Bool) (doc : Document) (selector : Str) :
    (∀ r, r ∈ query nodeMatches doc selector ↔
      ∃ arm ∈ splitUnion (trim selector), ∃ filters operators, parseChain arm = some (filters, operators) ∧
        Selected nodeMatches doc.nodes filters operators r) ∧
      (query nodeMatches doc selector).Sublist (docRefs doc.nodes) :=
  queryRoots_exact nodeMatches doc.nodes selector

end Semantics

end TensorDE.Kdl.Query
