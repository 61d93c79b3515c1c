import TensorDE.Dbus.ObjectServer

namespace TensorDE.Dbus

open Effect Maps Bytes Segments List

variable {Handler Property : Type} {server : ObjectServer Handler Property}

/-- A path that names an object: the root, or segments free of separators. -/
def IsPath (path : Bytes) : Prop := ∃ segs, Plain slash segs ∧ path = render slash segs

def Object.Carries (object : Object Handler Property) : Prop :=
  object.interfaces.keys ≠ [] ∨ object.objectManager = true

structure Tree (server : ObjectServer Handler Property) : Prop where
  path : ∀ p o, server.objects.find p = some o → IsPath p
  registered : ∀ p o, server.objects.find p = some o → (o.registered = true ↔ o.Carries)
  nodes : ∀ p, (∃ o, server.objects.find p = some o) ↔
    ∃ q o, server.objects.find q = some o ∧ o.registered = true ∧ (p = q ∨ p ∈ ancestors q)
  children : ∀ p o, server.objects.find p = some o → o.children = directChildren p server.objects.keys

variable {object : Object Handler Property} {entry : Interface Handler Property} (interface : Bytes)

theorem carries_of_find (h : object.interfaces.find interface = some entry) : object.Carries := by
  refine .inl fun hnil => ?_
  have hm := Map.mem_keys.mpr ⟨entry, h⟩
  simp [hnil] at hm

theorem isPath_ancestor {p q : Bytes} (hq : IsPath q) (h : p ∈ ancestors q) : IsPath p := by
  obtain ⟨segs, hs, rfl⟩ := hq
  obtain ⟨s, hp, _, rfl⟩ := (mem_ancestors_render hs).mp h
  exact ⟨s, hs.of_prefix hp, rfl⟩

section Refresh

variable (server)

variable {p : Bytes} {o : Object Handler Property}

theorem kept_find : (kept server).find p = some o ↔ server.objects.find p = some o ∧ o.registered = true := by
  simp [kept]

theorem refresh_node (h : (refreshIntrospection server).objects.find p = some o) :
    ∃ o', o = { o' with children := directChildren p (refreshIntrospection server).objects.keys } ∧
      ((kept server).find p = some o' ∨
        o' = Object.default ∧ (kept server).find p = none ∧
          ∃ q o, (kept server).find q = some o ∧ p ∈ ancestors q) := by
  simp only [refreshIntrospection, withChildren, Map.keys_mapValues, Map.find_mapValues,
    Option.map_eq_some_iff] at h ⊢
  obtain ⟨o', ho', rfl⟩ := h
  refine ⟨o', rfl, ?_⟩
  rw [withAncestors, Map.find_ensureAll] at ho'
  split at ho'
  · next hm =>
    cases hk : (kept server).find p with
    | some o => simpa [hk] using ho'
    | none =>
      obtain ⟨q, hq, hpq⟩ := mem_flatMap.mp hm
      obtain ⟨v, hv⟩ := Map.mem_keys.mp hq
      grind
  · exact .inl ho'

theorem refresh_has_node : (∃ o, (refreshIntrospection server).objects.find p = some o) ↔
    ∃ q o, (kept server).find q = some o ∧ (p = q ∨ p ∈ ancestors q) := by
  constructor
  · rintro ⟨o, ho⟩
    obtain ⟨o', _, hk | ⟨_, _, q, oq, hq, hpq⟩⟩ := refresh_node server ho
    · exact ⟨p, o', hk, .inl rfl⟩
    · exact ⟨q, oq, hq, .inr hpq⟩
  · rintro ⟨q, oq, hq, hpq⟩
    have hsome : ∃ o, (withAncestors (kept server)).find p = some o := by
      rw [withAncestors, Map.find_ensureAll]
      split
      · exact ⟨_, rfl⟩
      · next hm =>
        obtain rfl | hpq := hpq
        · exact ⟨oq, hq⟩
        · exact absurd (mem_flatMap.mpr ⟨q, Map.mem_keys.mpr ⟨oq, hq⟩, hpq⟩) hm
    grind [refreshIntrospection, withChildren, Map.find_mapValues]

theorem refresh_tree (hreg : ∀ p o, server.objects.find p = some o → o.registered = true →
    IsPath p ∧ o.Carries) : Tree (refreshIntrospection server) := by
  have hkept : ∀ p o, (kept server).find p = some o → IsPath p ∧ o.Carries ∧ o.registered = true := by
    intro p o h
    obtain ⟨h, hr⟩ := (kept_find server).mp h
    exact ⟨(hreg p o h hr).1, (hreg p o h hr).2, hr⟩
  refine ⟨?_, ?_, ?_, ?_⟩
  · intro p o h
    obtain ⟨q, oq, hq, rfl | hpq⟩ := (refresh_has_node server).mp ⟨o, h⟩
    · exact (hkept p oq hq).1
    · exact isPath_ancestor (hkept q oq hq).1 hpq
  · intro p o h
    obtain ⟨o', rfl, hk | ⟨rfl, _⟩⟩ := refresh_node server h
    · exact ⟨fun _ => (hkept p o' hk).2.1, fun _ => (hkept p o' hk).2.2⟩
    · refine ⟨fun h => by simp [Object.default] at h, fun h => ?_⟩
      obtain h | h := h
      · exact absurd rfl h
      · cases h
  · intro p
    rw [refresh_has_node]
    constructor
    · rintro ⟨q, oq, hq, hpq⟩
      obtain ⟨o, ho⟩ := (refresh_has_node server).mpr ⟨q, oq, hq, .inl rfl⟩
      refine ⟨q, o, ho, ?_, hpq⟩
      obtain ⟨o', rfl, hk | ⟨_, hnone, _⟩⟩ := refresh_node server ho
      · exact (hkept q o' hk).2.2
      · rw [hq] at hnone
        cases hnone
    · rintro ⟨q, o, ho, hr, hpq⟩
      obtain ⟨o', rfl, hk | ⟨rfl, _⟩⟩ := refresh_node server ho
      · exact ⟨q, o', hk, hpq⟩
      · simp [Object.default] at hr
  · intro p o h
    obtain ⟨o', rfl, _⟩ := refresh_node server h
    rfl

end Refresh

theorem Tree.ready (ht : Tree server) {p : Bytes} {o : Object Handler Property}
    (h : server.objects.find p = some o) (hr : o.registered = true) : IsPath p ∧ o.Carries :=
  ⟨ht.path p o h, (ht.registered p o h).mp hr⟩

theorem ensure_modify_find (objects : Map Bytes (Object Handler Property)) (path p : Bytes)
    (f : Object Handler Property → Object Handler Property) :
    ((objects.ensure path Object.default).modify path f).find p =
      if p = path then some (f ((objects.find path).getD Object.default)) else objects.find p := by
  by_cases h : p = path <;> simp [h]

@[simp] theorem check_validateName (valid : Bytes → Bool) (value : Bytes) (kind : String)
    (server : ObjectServer Handler Property) : check (validateName valid value kind) server =
      if valid value then .ok () server else .error (.error (.invalidName kind value)) server := by
  by_cases h : valid value = true <;> simp [check, validateName, h]

theorem opened_find (object : Object Handler Property) : (opened interface object).interfaces.find interface =
      some ((object.interfaces.find interface).getD Interface.default) := by
  simp [opened]

theorem opened_eq_self (ht : Tree server) {path interface : Bytes} (ho : server.objects.find path = some object)
    (he : object.interfaces.find interface = some entry) : opened interface object = object := by
  have hr := (ht.registered path object ho).mpr (carries_of_find interface he)
  have hi : object.interfaces.ensure interface Interface.default = object.interfaces := by
    simp [Map.ensure, he]
  rw [opened, hi, ← hr]

section Safety

variable {validPath : Bytes → Bool}

theorem checkRegistration_run (validPath : Bytes → Bool) (path interface name : Bytes) (kind : String)
    (server : ObjectServer Handler Property) :
    (∃ e, checkRegistration validPath path interface name kind server = .error (.error e) server) ∨
      checkRegistration validPath path interface name kind server = .ok () server ∧ validPath path = true := by
  by_cases hp : validPath path = true <;> by_cases hi : isInterfaceName interface = true <;>
    by_cases hm : isMemberName name = true <;> by_cases hs : isStandardInterface interface = true <;>
    simp [checkRegistration, validatePath, validateInterfaceName, validateMemberName, hp, hi, hm, hs]

variable (hpath : ∀ p, validPath p = true → IsPath p)
include hpath

theorem refresh_modified (ht : Tree server) {path : Bytes} (hp : validPath path = true)
    (objects : Map Bytes (Object Handler Property)) (hother : ∀ p, p ≠ path → objects.find p = server.objects.find p)
    (hself : ∀ o, objects.find path = some o → o.Carries) : Tree (refreshIntrospection ⟨objects⟩) := by
  refine refresh_tree ⟨objects⟩ fun p o h hr => ?_
  grind -linarith [ht.ready]

theorem registerEntry_safe {V : Type} (table : Interface Handler Property → Map Bytes V)
    (store : Interface Handler Property → Map Bytes V → Interface Handler Property)
    (htable : table Interface.default = .empty) (kind : String) (duplicate : Bytes → Bytes → Bytes → Error)
    (path interface name : Bytes) (value : V) :
    Safe Tree (registerEntry validPath table store kind duplicate path interface name value) := by
  intro server ht
  obtain ⟨e, he⟩ | ⟨hok, hp⟩ := checkRegistration_run validPath path interface name kind server
  · simp [registerEntry, he, Settled]
  have hfind := fun p => ensure_modify_find server.objects path p (opened interface)
  cases hdup : (table (((server.objects.find path).getD Object.default).interfaces.find interface |>.getD
      Interface.default)).find name with
  | some v =>
    -- The name is taken, so object and interface were there and nothing has changed.
    have hopen : (server.objects.ensure path Object.default).modify path (opened interface) = server.objects := by
      cases ho : server.objects.find path with
      | none => simp [ho, Object.default, htable] at hdup
      | some object =>
        cases hent : object.interfaces.find interface with
        | none => simp [ho, hent, htable] at hdup
        | some entry => grind -linarith [Map.ensure, Map.modify_eq_self, opened_eq_self]
    have hrun : registerEntry validPath table store kind duplicate path interface name value server =
        .error (.error (duplicate path interface name))
          ⟨(server.objects.ensure path Object.default).modify path (opened interface)⟩ := by
      simp [registerEntry, hok, opened_find, hdup]
    rw [hrun, hopen]
    rfl
  | none =>
    have htree := refresh_modified hpath ht hp
      (((server.objects.ensure path Object.default).modify path (opened interface)).modify path
        fun object =>
          { object with
            interfaces := object.interfaces.modify interface
              (fun entry => store entry ((table entry).insert name value)) })
      (fun p hne => by simp [hne]) (fun o ho => by
        simp only [Map.find_modify, if_true, hfind, Option.map_some, Option.some.injEq] at ho
        subst ho
        exact carries_of_find interface (by simp [opened_find]; rfl))
    simpa [registerEntry, hok, opened_find, hdup, Settled] using htree

variable (path : Bytes)

theorem enableObjectManager_safe : Safe Tree (enableObjectManager validPath path : Serve Handler Property Unit) := by
  intro server ht
  by_cases hp : validPath path = true
  · have htree := refresh_modified hpath ht hp
      ((server.objects.ensure path Object.default).modify path fun object =>
        { object with registered := true, objectManager := true })
      (fun p hne => by simp [hne]) (fun o ho => by
        rw [ensure_modify_find, if_pos rfl, Option.some.injEq] at ho
        exact .inr (ho ▸ rfl))
    simpa [enableObjectManager, validatePath, hp, Settled] using htree
  · simp [enableObjectManager, validatePath, hp, Settled]

theorem unregisterInterface_safe (path interface : Bytes) :
    Safe Tree (unregisterInterface validPath path interface : Serve Handler Property Bool) := by
  intro server ht
  by_cases hp : validPath path = true
  swap
  · simp [unregisterInterface, validatePath, hp, Settled]
  by_cases hi : isInterfaceName interface = true
  swap
  · simp [unregisterInterface, validatePath, validateInterfaceName, hp, hi, Settled]
  cases ho : (server.objects.find path).filter (·.registered) with
  | none => simpa [unregisterInterface, validatePath, validateInterfaceName, hp, hi, ho, Settled] using ht
  | some object =>
    cases he : object.interfaces.find interface with
    | none => simpa [unregisterInterface, validatePath, validateInterfaceName, hp, hi, ho, he, Settled] using ht
    | some entry =>
      have htree := refresh_modified hpath ht hp
        (if (object.interfaces.erase interface).keys = [] ∧ object.objectManager = false
          then server.objects.erase path
          else server.objects.modify path fun o => { o with interfaces := object.interfaces.erase interface })
        (fun p hne => by split <;> simp [hne]) (fun o hfo => by
          obtain ⟨hfind, _⟩ := Option.filter_eq_some_iff.mp ho
          split at hfo
          · simp at hfo
          · next hkeep =>
            simp only [Map.find_modify, if_true, hfind, Option.map_some, Option.some.injEq] at hfo
            subst hfo
            by_cases hk : (object.interfaces.erase interface).keys = []
            · exact .inr (by simpa [hk] using hkeep)
            · exact .inl hk)
      simpa [unregisterInterface, validatePath, validateInterfaceName, hp, hi, ho, he, Settled] using htree

theorem unregisterObject_safe :
    Safe Tree (unregisterObject validPath path : Serve Handler Property (List Bytes)) := by
  intro server ht
  by_cases hp : validPath path = true
  swap
  · simp [unregisterObject, validatePath, hp, Settled]
  cases ho : (server.objects.find path).filter (·.registered) with
  | none => simpa [unregisterObject, validatePath, hp, ho, Settled] using ht
  | some object =>
    have htree := refresh_modified hpath ht hp (server.objects.erase path)
      (fun p hne => by simp [hne]) (fun o hfo => by simp at hfo)
    simpa [unregisterObject, validatePath, hp, ho, Settled] using htree

theorem serve_safe (request : Request Handler Property) : Safe Tree (serve validPath request) := by
  cases request with
  | insert path interface member method =>
    exact (registerEntry_safe hpath _ _ rfl _ _ path interface member method).map _
  | insertProperty path interface name property =>
    exact (registerEntry_safe hpath _ _ rfl _ _ path interface name property).map _
  | registerSignal path interface name signal =>
    exact (registerEntry_safe hpath _ _ rfl _ _ path interface name signal).map _
  | enableObjectManager path => exact (enableObjectManager_safe hpath path).map _
  | unregisterInterface path interface => exact (unregisterInterface_safe hpath path interface).map _
  | unregisterObject path => exact (unregisterObject_safe hpath path).map _

omit hpath in
theorem new_tree : Tree (ObjectServer.new : ObjectServer Handler Property) := by
  refine ⟨?_, ?_, ?_, ?_⟩ <;> simp [ObjectServer.new]

end Safety

theorem childSegment_eq_some {stem path seg : Bytes} :
    childSegment stem path = some seg ↔ path = stem ++ seg ∧ seg ≠ [] ∧ slash ∉ seg := by
  unfold childSegment
  cases h : stem.isPrefixOf? path with
  | none =>
    simp only [reduceCtorEq, false_iff, not_and]
    rintro rfl
    have hself : stem.isPrefixOf? (stem ++ seg) = some seg := isPrefixOf?_eq_some_iff_append_eq.mpr rfl
    simp [h] at hself
  | some suffix =>
    have happ := append_eq_of_isPrefixOf?_eq_some h
    grind [append_cancel_left]

variable {paths : List Bytes}

theorem mem_directChildren {s : List Bytes} (hs : Plain slash s) {seg : Bytes} :
    seg ∈ directChildren (render slash s) paths ↔ (seg ≠ [] ∧ slash ∉ seg) ∧ render slash (s ++ [seg]) ∈ paths := by
  have hstem : (if render slash s = [slash] then [slash] else render slash s ++ [slash]) =
      flat slash s ++ [slash] := by
    cases s with
    | nil => rfl
    | cons x s =>
      rw [if_neg]
      · rfl
      · intro h
        simpa using render_injective hs (t := []) (fun _ h => by simp at h) h
  rw [directChildren, mem_mergeSort, mem_filterMap, hstem, render_concat]
  grind [childSegment_eq_some]

theorem directChildren_sorted (parent : Bytes) (h : paths.Nodup) : (directChildren parent paths).Pairwise (· < ·) := by
  have hnd : (directChildren parent paths).Nodup := by
    refine (mergeSort_perm _ _).nodup_iff.mpr (h.filterMap fun a b seg ha hb => ?_)
    rw [(childSegment_eq_some.mp ha).1, (childSegment_eq_some.mp hb).1]
  exact ((sorted_mergeSort _).and hnd).imp fun hab => Std.lt_of_le_of_ne hab.1 hab.2

/-- After any sequence of requests the nodes are the paths that carry an
interface or an object manager with all their ancestors, each node lists its
direct child segments in order and once, and a failed request changed nothing. -/
theorem reachable_tree_exact {validPath : Bytes → Bool} (hpath : ∀ p, validPath p = true → IsPath p)
    (server : ObjectServer Handler Property) (h : Reachable (serve validPath) ObjectServer.new server) :
    (∀ p, (∃ o, server.objects.find p = some o) ↔ ∃ segs o, Plain slash segs ∧
      server.objects.find (render slash segs) = some o ∧ o.Carries ∧ ∃ s, s <+: segs ∧ p = render slash s) ∧
    (∀ s o, Plain slash s → server.objects.find (render slash s) = some o → o.children.Pairwise (· < ·) ∧
      ∀ seg, seg ∈ o.children ↔ ∃ segs o', Plain slash segs ∧
        server.objects.find (render slash segs) = some o' ∧ o'.Carries ∧ s ++ [seg] <+: segs) ∧
    ∀ request e server', serve validPath request server = .error (.error e) server' → server' = server := by
  have ht : Tree server := h.invariant new_tree (serve_safe hpath)
  have hnodes : ∀ p, (∃ o, server.objects.find p = some o) ↔ ∃ segs o, Plain slash segs ∧
      server.objects.find (render slash segs) = some o ∧ o.Carries ∧
      ∃ s, s <+: segs ∧ p = render slash s := by
    intro p
    rw [ht.nodes]
    constructor
    · rintro ⟨q, o, ho, hr, hpq⟩
      obtain ⟨segs, hs, rfl⟩ := ht.path q o ho
      refine ⟨segs, o, hs, ho, (ht.registered _ o ho).mp hr, ?_⟩
      obtain rfl | hpq := hpq
      · exact ⟨segs, prefix_rfl, rfl⟩
      · obtain ⟨s, hp, _, rfl⟩ := (mem_ancestors_render hs).mp hpq
        exact ⟨s, hp, rfl⟩
    · rintro ⟨segs, o, hs, ho, hc, s, hp, rfl⟩
      refine ⟨render slash segs, o, ho, (ht.registered _ o ho).mpr hc, ?_⟩
      by_cases heq : s = segs
      · exact .inl (heq ▸ rfl)
      · exact .inr ((mem_ancestors_render hs).mpr ⟨s, hp, heq, rfl⟩)
  refine ⟨hnodes, ?_, ?_⟩
  · intro s o hs ho
    rw [ht.children _ o ho]
    refine ⟨directChildren_sorted _ server.objects.keys_nodup, fun seg => ?_⟩
    rw [mem_directChildren hs, Map.mem_keys, hnodes]
    constructor
    · rintro ⟨hplain, segs, o', hsegs, ho', hc, s', hp, heq⟩
      have hseg : Plain slash [seg] := fun x hx => mem_singleton.mp hx ▸ hplain
      rw [render_injective (hs.append hseg) (hsegs.of_prefix hp) heq]
      exact ⟨segs, o', hsegs, ho', hc, hp⟩
    · rintro ⟨segs, o', hsegs, ho', hc, hp⟩
      exact ⟨(hsegs.of_prefix hp) seg (by simp), segs, o', hsegs, ho', hc, _, hp, rfl⟩
  · intro request e server' hx
    have hsafe := serve_safe hpath request server ht
    rwa [hx] at hsafe

theorem flat_intercalate (x : Bytes) (xs : List Bytes) :
    flat slash (x :: xs) = slash :: [slash].intercalate (x :: xs) := by
  induction xs generalizing x with
  | nil => simp [flat]
  | cons y xs ih => rw [flat, ih]; simp

theorem isPath_of_isObjectPath (p : Bytes) (h : isObjectPath p = true) : IsPath p := by
  cases p with
  | nil => cases h
  | cons first rest =>
    simp only [isObjectPath, Bool.and_eq_true, beq_iff_eq, Bool.or_eq_true, List.isEmpty_iff,
      all_eq_true] at h
    obtain ⟨rfl, rfl | h⟩ := h
    · exact ⟨[], fun _ h => by simp at h, rfl⟩
    · have hsplit : [slash].intercalate (rest.splitOn slash) = rest := intercalate_splitOn slash
      cases hs : rest.splitOn slash with
      | nil => simp at hs
      | cons x xs =>
        refine ⟨x :: xs, ?_, ?_⟩
        · intro y hy
          have hy' := h y (hs ▸ hy)
          refine ⟨by simpa using hy'.1, fun hm => ?_⟩
          have := hy'.2 slash hm
          revert this
          decide
        · rw [render, flat_intercalate, ← hs, hsplit]

theorem plain_of_all {segs : List Bytes} (h : segs.all (fun x => !x.isEmpty && !x.contains slash) = true) :
    Plain slash segs := by
  intro x hx
  grind -linarith

theorem nested_object_tree_exact :
    ∃ server : ObjectServer Unit Unit, Reachable (serve isObjectPath) ObjectServer.new server ∧
      ∃ o, server.objects.find (ofAscii "/a") = some o ∧ ofAscii "b" ∈ o.children := by
  have h1 := Reachable.ok (c := .enableObjectManager (ofAscii "/a/b"))
    (Reachable.init : Reachable (serve isObjectPath) (ObjectServer.new : ObjectServer Unit Unit) _) rfl
  refine ⟨_, h1, _, rfl, ?_⟩
  obtain ⟨_, hchildren, _⟩ := reachable_tree_exact isPath_of_isObjectPath _ h1
  refine ((hchildren [ofAscii "a"] _ (plain_of_all (by decide)) rfl).2 (ofAscii "b")).mpr ?_
  exact ⟨[ofAscii "a", ofAscii "b"], _, plain_of_all (by decide), rfl, .inr rfl, prefix_rfl⟩

end TensorDE.Dbus
