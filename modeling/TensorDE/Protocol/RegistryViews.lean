import TensorDE.Protocol.RegistryMembers

set_option linter.dupNamespace false

namespace TensorDE.Protocol.SurfaceBufferRegistry

open TensorDE.Maps TensorDE.Effect List

variable {K C D : Type} [DecidableEq K]

/-- A call that gives up leaves the surfaces, the views and the buffers as they were. -/
structure Unchanged (r r' : SurfaceBufferRegistry K C D) : Prop where
  sound : r'.Sound
  buffers : r'.buffers = r.buffers
  registered : ∀ s, r'.Registered s ↔ r.Registered s
  views : ∀ v, (r'.viewMembers.find v).isSome = (r.viewMembers.find v).isSome
  listed : ∀ v s, r'.Listed v s ↔ r.Listed v s
  roots : ∀ s, r'.surfaceRoots.find s = r.surfaceRoots.find s

variable (r : SurfaceBufferRegistry K C D)

def idsLeft : Nat := 2 ^ 64 - 1 - r.nextSurfaceId

def newcomers (members : List K) : List K :=
  members.filter fun s => (r.surfaces.find s).isNone

section RegisterMembers

variable [Inhabited D] {r : SurfaceBufferRegistry K C D}

/-- A surface that has been registered a moment ago: nothing shown, in no view. -/
structure Blank (r : SurfaceBufferRegistry K C D) (surface : K) : Prop where
  shows : holding r.surfaces surface = none
  listed : ∀ v, ¬ r.Listed v surface
  root : r.surfaceRoots.find surface = none

variable {surface : K}

theorem Sound.blank (h : r.Sound) (hs : ¬ r.Registered surface) : Blank r surface where
  shows := by
    grind [Registered, Option.isSome_eq_false_iff, Option.isNone_iff_eq_none, holding]
  listed := fun v hl => hs (h.listed v surface hl)
  root := by
    cases hroot : r.surfaceRoots.find surface with
    | none => rfl
    | some v => exact absurd (h.rooted surface v hroot) hs

variable {r' : SurfaceBufferRegistry K C D} {object : K}

theorem Registers.blank (h : Registers r object r')
    (hb : Blank r surface) : Blank r' surface where
  shows := (h.holding surface).trans hb.shows
  listed := by
    intro v hl
    rw [Listed, h.viewMembers] at hl
    exact hb.listed v hl
  root := by rw [h.surfaceRoots, hb.root]

theorem Registers.blanks {news : List K}
    (h : Registers r object r') (hnews : ∀ s ∈ news, Blank r s) (hs : Blank r surface) :
    ∀ s ∈ news ++ [surface], Blank r' s := by
  grind [h.blank]

theorem Removes.blank {surfaces : List K} {released : List SurfaceBufferId}
    (h : Removes r surfaces released r') (hb : ∀ s ∈ surfaces, Blank r s) :
    r'.Sound ∧ r'.buffers = r.buffers ∧ (∀ v, (r'.viewMembers.find v).isSome = (r.viewMembers.find v).isSome)
      ∧ (∀ v s, r'.Listed v s ↔ r.Listed v s) ∧ ∀ s, r'.surfaceRoots.find s = r.surfaceRoots.find s := by
  grind +splitImp +splitIndPred

/-- What the first loop of a tree update leaves behind, with `news` the surfaces it has registered
so far. -/
structure Enters (r : SurfaceBufferRegistry K C D) (news members : List K)
    (result : Bool × SurfaceBufferRegistry K C D) : Prop where
  sound : result.2.Sound
  buffers : result.2.buffers = r.buffers
  listed : ∀ v s, result.2.Listed v s ↔ r.Listed v s
  roots : ∀ s, result.2.surfaceRoots.find s = r.surfaceRoots.find s
  views : ∀ v, (result.2.viewMembers.find v).isSome = (r.viewMembers.find v).isSome
  viewMembers : result.1 → result.2.viewMembers = r.viewMembers
  entered : result.1 → ∀ s, result.2.Registered s ↔ r.Registered s ∨ s ∈ members
  undone : ¬ result.1 → ∀ s, result.2.Registered s ↔ r.Registered s ∧ s ∉ news
  enough : result.1 → (r.newcomers members).length ≤ r.idsLeft
  short : ¬ result.1 → r.idsLeft < (r.newcomers members).length

omit [Inhabited D] in
theorem newcomers_insert {rest : List K} (hs : surface ∉ rest) (next : Nat) (state : SurfaceState K C D) :
    newcomers { r with nextSurfaceId := next, surfaces := r.surfaces.insert surface state } rest = r.newcomers rest := by
  refine filter_congr fun s hm => ?_
  grind [Map.find_insert]

theorem registerMembers_enters (h : r.Sound) {news members : List K} (hnews : ∀ s ∈ news, Blank r s)
    (hn : members.Nodup) : Enters r news members (r.registerMembers news members) := by
  induction members generalizing r news with
  | nil =>
    refine ⟨h, rfl, fun v s => Iff.rfl, fun s => rfl, fun v => rfl, fun _ => rfl, fun _ s => ?_, ?_, ?_, ?_⟩
    · simp [registerMembers]
    · simp [registerMembers]
    · simp [newcomers]
    · simp [registerMembers]
  | cons surface rest ih =>
    rw [nodup_cons] at hn
    rw [registerMembers]
    split_ifs with hreg
    · have hrest := ih h hnews hn.2
      have hcount : r.newcomers (surface :: rest) = r.newcomers rest := by
        refine filter_cons_of_neg ?_
        simpa using fun hnone => by simp [hnone] at hreg
      refine ⟨hrest.sound, hrest.buffers, hrest.listed, hrest.roots, hrest.views, hrest.viewMembers, fun hok s => ?_,
        hrest.undone, by rw [hcount]; exact hrest.enough, by rw [hcount]; exact hrest.short⟩
      grind -linarith [hrest.entered, Registered]
    · have hnone : r.surfaces.find surface = none := by simpa using hreg
      have hcount : r.newcomers (surface :: rest) = surface :: r.newcomers rest := by
        exact filter_cons_of_pos (by simp [hnone])
      obtain ⟨state, hs, -⟩ | ⟨-, hroom, heq⟩ | ⟨-, hroom, heq⟩ := r.registerSurface_cases surface
      · rw [hnone] at hs
        cases hs
      · have hone := registerSurface_registers h heq
        have hrest := ih hone.sound (hone.blanks hnews (h.blank hreg)) hn.2
        have hlater := newcomers_insert (r := r) hn.1 (r.nextSurfaceId + 1) (SurfaceState.fresh r.nextSurfaceId)
        rw [heq]
        refine ⟨hrest.sound, hrest.buffers.trans hone.buffers, fun v s => ?_, fun s => ?_, fun v => ?_, fun hok => ?_,
          fun hok s => ?_, fun hbad s => ?_, fun hok => ?_, fun hbad => ?_⟩
        · exact (hrest.listed v s).trans Iff.rfl
        · exact (hrest.roots s).trans rfl
        · exact (hrest.views v).trans rfl
        · exact (hrest.viewMembers hok).trans rfl
        · rw [hrest.entered hok, hone.registered, mem_cons, or_assoc]
        · rw [hrest.undone hbad, hone.registered, mem_append, mem_singleton, not_or]
          refine ⟨?_, fun hs => ⟨.inl hs.1, hs.2, fun hss => hreg (hss ▸ hs.1)⟩⟩
          grind
        · have hle := hrest.enough hok
          grind [idsLeft]
        · have hlt := hrest.short hbad
          grind [idsLeft]
      · rw [heq]
        have hremoved := removeSurfaces_removes h news
        obtain ⟨hsound, hbuffers, hviews, hlisted, hroots⟩ := hremoved.blank hnews
        refine ⟨hsound, hbuffers, hlisted, hroots, hviews, by simp, by simp, fun _ => hremoved.registered, by simp,
          fun _ => ?_⟩
        rw [hcount, length_cons, idsLeft]
        omega

end RegisterMembers

section Update

variable [DecidableEq C] [DecidableEq D] {r : SurfaceBufferRegistry K C D}

theorem updateSurfaces_updates (h : r.Sound) (update : SurfaceTreeUpdate D) (commits : List (K × SurfaceCommit K C D)) :
    ∃ released, (r.updateSurfaces update commits).1.releasedBuffers = update.releasedBuffers ++ released
      ∧ Updates r released (r.updateSurfaces update commits).2 := by
  induction commits generalizing r update with
  | nil => exact ⟨[], by simp [updateSurfaces], h, Releases.refl _, fun s => Iff.rfl, rfl, rfl⟩
  | cons c rest ih =>
    have hone := updateSurface_updates h c.1 c.2
    obtain ⟨released, heq, hrest⟩ := ih hone.sound
      { update with
        changed := update.changed || (r.updateSurface c.1 c.2).1.changed
        releasedBuffers := update.releasedBuffers ++ (r.updateSurface c.1 c.2).1.releasedBuffers
        contents := update.contents ++ (r.updateSurface c.1 c.2).1.content.toList }
    refine ⟨(r.updateSurface c.1 c.2).1.releasedBuffers ++ released, ?_, hone.trans hrest⟩
    rw [← append_assoc]
    exact heq

end Update

section Tree

variable {r : SurfaceBufferRegistry K C D}

variable {s : K}

theorem mem_firstCommits {seen : List K} {commits : List (K × SurfaceCommit K C D)} :
    s ∈ (firstCommits seen commits).map Prod.fst ↔ s ∈ commits.map Prod.fst ∧ s ∉ seen := by
  induction commits generalizing seen with
  | nil => simp [firstCommits]
  | cons c rest ih =>
    rw [firstCommits]
    split_ifs with hc
    · rw [ih, map_cons, mem_cons]
      refine ⟨fun hs => ⟨.inr hs.1, hs.2⟩, ?_⟩
      rintro ⟨rfl | hs, hseen⟩
      · exact absurd hc hseen
      · exact ⟨hs, hseen⟩
    · rw [map_cons, map_cons, mem_cons, mem_cons, ih, mem_cons, not_or]
      constructor
      · rintro (rfl | ⟨hs, -, hseen⟩)
        · exact ⟨.inl rfl, hc⟩
        · exact ⟨.inr hs, hseen⟩
      · rintro ⟨rfl | hs, hseen⟩
        · exact .inl rfl
        · by_cases heq : s = c.1
          · exact .inl heq
          · exact .inr ⟨hs, heq, hseen⟩

theorem nodup_firstCommits (seen : List K) (commits : List (K × SurfaceCommit K C D)) :
    ((firstCommits seen commits).map Prod.fst).Nodup := by
  induction commits generalizing seen with
  | nil => exact nodup_nil
  | cons c rest ih =>
    rw [firstCommits]
    split_ifs with hc
    · exact ih seen
    · rw [map_cons, nodup_cons]
      refine ⟨fun hm => ?_, ih (c.1 :: seen)⟩
      exact (mem_firstCommits.mp hm).2 (mem_cons_self ..)

theorem find_foldl_insert (roots : Map K K) (root : K) (members : List K) (s : K) :
    (members.foldl (fun roots surface => roots.insert surface root) roots).find s
      = if s ∈ members then some root else roots.find s := by
  induction members generalizing roots with
  | nil => simp
  | cons m rest ih => grind [Map.find_insert]

/-- The members that a tree update leaves out. -/
def retired (r : SurfaceBufferRegistry K C D) (root : K) (members : List K) : List K :=
  ((r.viewMembers.find root).getD []).filter (· ∉ members)

variable {members : List K}

theorem mem_retired {root s : K} : s ∈ r.retired root members ↔ r.Listed root s ∧ s ∉ members := by
  rw [retired, mem_filter, listed_iff, decide_eq_true_iff]

/-- What a tree update that goes through does to the views: the root gets its members, and the ones
left out are gone. -/
structure Rebuilds (r : SurfaceBufferRegistry K C D) (root : K) (members : List K) (released : List SurfaceBufferId)
    (r' : SurfaceBufferRegistry K C D) : Prop where
  sound : r'.Sound
  releases : Releases r.buffers released r'.buffers
  registered : ∀ s, r'.Registered s ↔ (r.Registered s ∨ s ∈ members) ∧ s ∉ r.retired root members
  listed : ∀ v s, r'.Listed v s ↔ if v = root then s ∈ members else r.Listed v s ∧ s ∉ r.retired root members
  roots : ∀ s, r'.surfaceRoots.find s = if s ∈ members then some root
    else if s ∈ r.retired root members then none else r.surfaceRoots.find s
  enough : (r.newcomers members).length ≤ r.idsLeft

theorem listed_setMembers {root v s : K} :
    (r.setMembers root members).Listed v s ↔ if v = root then s ∈ members else r.Listed v s := by
  grind [listed_iff, setMembers, Map.find_insert]

theorem Sound.setMembers (h : r.Sound) (root : K) (hm : ∀ s ∈ members, r.Registered s) :
    (r.setMembers root members).Sound :=
  { h with
    listed := by
      intro v s hl
      rw [listed_setMembers] at hl
      split_ifs at hl with hv
      · exact hm s hl
      · exact h.listed v s hl }

theorem Sound.setRoots (h : r.Sound) (root : K) (members : List K) (hm : ∀ s ∈ members, r.Registered s) :
    (r.setRoots root members).Sound :=
  { h with
    rooted := by
      intro s v hv
      rw [SurfaceBufferRegistry.setRoots, find_foldl_insert] at hv
      split_ifs at hv with hs
      · exact hm s hs
      · exact h.rooted s v hv }

variable [DecidableEq C] [DecidableEq D] [Inhabited D]

theorem updateViewTree_cases (h : r.Sound) (root : K) (commits : List (K × SurfaceCommit K C D)) :
    ((r.updateViewTree root commits).1 = none ∧ Unchanged r (r.updateViewTree root commits).2
      ∧ r.idsLeft < (r.newcomers ((firstCommits [] commits).map Prod.fst)).length)
    ∨ ∃ update, (r.updateViewTree root commits).1 = some update
      ∧ Rebuilds r root ((firstCommits [] commits).map Prod.fst) update.releasedBuffers
          (r.updateViewTree root commits).2 := by
  rw [updateViewTree]
  have henter : Enters r [] _ _ := registerMembers_enters h (by simp) (nodup_firstCommits [] commits)
  generalize hcs : firstCommits [] commits = cs at henter ⊢
  generalize hms : cs.map Prod.fst = members at henter ⊢
  cases hres : r.registerMembers [] members with
  | mk ok r₁ =>
    rw [hres] at henter
    cases ok with
    | false =>
      refine .inl ⟨rfl, ⟨henter.sound, henter.buffers, fun s => ?_, henter.views, henter.listed, henter.roots⟩,
        henter.short Bool.false_ne_true⟩
      rw [henter.undone Bool.false_ne_true]
      simp
    | true =>
      have hview := henter.viewMembers rfl
      have hretired : ((r₁.viewMembers.find root).getD []).filter (· ∉ members) = r.retired root members := by
        rw [hview, retired]
      have hsound := henter.sound.setMembers root fun s hs => (henter.entered rfl s).mpr (.inr hs)
      have hremoved := removeSurfaces_removes hsound (r.retired root members)
      have hrooted := hremoved.sound.setRoots root members fun s hs =>
        (hremoved.registered s).mpr ⟨(henter.entered rfl s).mpr (.inr hs), fun hm => (mem_retired.mp hm).2 hs⟩
      simp only [hretired]
      obtain ⟨released, heq, hupdated⟩ := updateSurfaces_updates hrooted
        ⟨(r₁.viewMembers.find root).getD [] ≠ members, [],
          (r₁.setMembers root members).removedIds (r.retired root members),
          ((r₁.setMembers root members).removeSurfaces (r.retired root members)).1⟩ cs
      refine .inr ⟨_, rfl, ?_⟩
      have hrel := hremoved.releases.trans hupdated.releases
      rw [← heq] at hrel
      refine ⟨hupdated.sound, henter.buffers ▸ hrel, fun s => ?_, fun v s => ?_, fun s => ?_, henter.enough rfl⟩
      · rw [← henter.entered rfl]
        exact (hupdated.registered s).trans (hremoved.registered s)
      · rw [Listed, hupdated.viewMembers]
        refine (hremoved.listed v s).trans ?_
        grind [listed_setMembers, henter.listed]
      · rw [hupdated.surfaceRoots]
        refine (find_foldl_insert _ root members s).trans ?_
        rw [hremoved.roots]
        split_ifs with hm hr
        · rfl
        · rfl
        · exact henter.roots s

end Tree

section RemoveTree

variable {r : SurfaceBufferRegistry K C D}

def treeMembers (r : SurfaceBufferRegistry K C D) (root : K) : List K :=
  ((r.viewMembers.find root).getD [root]).reverse.dedup.reverse

theorem mem_treeMembers {root s : K} :
    s ∈ r.treeMembers root ↔ if (r.viewMembers.find root).isSome then r.Listed root s else s = root := by
  rw [treeMembers, mem_reverse, mem_dedup, mem_reverse, listed_iff]
  cases r.viewMembers.find root <;> simp

def withoutView (r : SurfaceBufferRegistry K C D) (root : K) : SurfaceBufferRegistry K C D :=
  { r with viewMembers := r.viewMembers.erase root }

theorem listed_withoutView {root v s : K} : (r.withoutView root).Listed v s ↔ v ≠ root ∧ r.Listed v s := by
  grind [listed_iff, withoutView, Map.find_erase]

theorem removeViewTree_removes (h : r.Sound) (root : K) :
    Removes (r.withoutView root) (r.treeMembers root) (r.removeViewTree root).1.releasedBuffers
      (r.removeViewTree root).2 := by
  refine removeSurfaces_removes ?_ (r.treeMembers root)
  exact { h with listed := fun v s hl => h.listed v s (listed_withoutView.mp hl).2 }

end RemoveTree

section ViewRoot

variable [Inhabited D] {r : SurfaceBufferRegistry K C D}

theorem registerViewRoot_cases (h : r.Sound) (root : K) :
    (¬ r.Registered root ∧ r.idsLeft = 0 ∧ r.registerViewRoot root = none)
    ∨ ∃ id r', r.registerViewRoot root = some (id, r') ∧ r'.Sound ∧ r'.buffers = r.buffers
      ∧ (r.Registered root ∨ 0 < r.idsLeft) ∧ (∀ s, r'.Registered s ↔ r.Registered s ∨ s = root)
      ∧ (∀ v s, r'.Listed v s ↔ if v = root ∧ r.viewMembers.find root = none then s = root else r.Listed v s)
      ∧ ∀ s, r'.surfaceRoots.find s = if s = root then some ((r.surfaceRoots.find s).getD root)
          else r.surfaceRoots.find s := by
  rw [registerViewRoot]
  cases hreg : r.registerSurface root with
  | none => grind [r.registerSurface_cases, Registered, idsLeft]
  | some p =>
    have hone := registerSurface_registers h hreg
    have hlisted : ∀ v s, (Listed { p.2 with
        viewMembers := p.2.viewMembers.ensure root [root]
        surfaceRoots := p.2.surfaceRoots.ensure root root } v s)
        ↔ if v = root ∧ r.viewMembers.find root = none then s = root else r.Listed v s := by
      intro v s
      rw [listed_iff, Map.find_ensure, hone.viewMembers]
      by_cases hv : v = root
      · subst hv
        rw [if_pos rfl, listed_iff]
        cases r.viewMembers.find v <;> simp
      · simp [hv, listed_iff]
    refine .inr ⟨p.1, _, rfl, { hone.sound with listed := ?_, rooted := ?_ }, hone.buffers, ?_, hone.registered,
      hlisted, ?_⟩
    · intro v s hl
      rw [hlisted] at hl
      split_ifs at hl with hv
      · exact (hone.registered s).mpr (.inr hl)
      · exact (hone.registered s).mpr (.inl (h.listed v s hl))
    · intro s v hv
      rw [Map.find_ensure, hone.surfaceRoots] at hv
      split_ifs at hv with hs
      · exact (hone.registered s).mpr (.inr hs)
      · exact (hone.registered s).mpr (.inl (h.rooted s v hv))
    · grind [r.registerSurface_cases, Registered, idsLeft]
    · intro s
      rw [Map.find_ensure, hone.surfaceRoots]

end ViewRoot

end TensorDE.Protocol.SurfaceBufferRegistry
