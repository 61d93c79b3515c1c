import TensorDE.Lib.Effect
import TensorDE.Lib.Forest
import TensorDE.Wm.SurfaceLedger

set_option linter.dupNamespace false

namespace TensorDE.Wm.Compositor

open Effect

structure Node where
  alive : Bool
  parent : Option Surface
  children : List Surface
  sync : Option Bool

/-- `q` is reached from `s` through the lists of children. -/
def Under (tree : Surface → Node) (s q : Surface) : Prop :=
  Relation.ReflTransGen (fun p child => child ∈ (tree p).children ∧ child ≠ p) s q

/-- The lists of children agree with the parents, name living surfaces, and have no cycle. -/
structure Planted (tree : Surface → Node) : Prop where
  forest : WellFounded (Forest.Owns fun s => (tree s).parent)
  children : ∀ p child, child ∈ (tree p).children → child ≠ p → (tree child).parent = some p
  living : ∀ p child, child ∈ (tree p).children → (tree child).alive = true

theorem Under.cases {tree : Surface → Node} {s q : Surface} (h : Under tree s q) :
    q = s ∨ ∃ child ∈ (tree s).children, child ≠ s ∧ Under tree child q := by
  obtain heq | ⟨child, ⟨hmem, hne⟩, hrest⟩ := Relation.ReflTransGen.cases_head h
  · exact .inl heq.symm
  · exact .inr ⟨child, hmem, hne, hrest⟩

theorem Under.child {tree : Surface → Node} {s child q : Surface} (hmem : child ∈ (tree s).children)
    (hne : child ≠ s) (h : Under tree child q) : Under tree s q :=
  Relation.ReflTransGen.head ⟨hmem, hne⟩ h

namespace Client

variable {T : Type} {c c' c'' : Client T} {s p child : Surface}

def tree (c : Client T) (s : Surface) : Node where
  alive := (c.surfaces s).alive
  parent := (c.surfaces s).parent
  children := (c.surfaces s).children
  sync := (c.surfaces s).sync

theorem tree_edit {change : PrivateSurfaceData T → PrivateSurfaceData T}
    (h : ∀ data, (change data).alive = data.alive ∧ (change data).parent = data.parent ∧
      (change data).children = data.children ∧ (change data).sync = data.sync) : (c.edit s change).tree = c.tree := by
  grind [tree, edit_self, edit_of_ne]

theorem tree_takePending : (c.takePending s).tree = c.tree := by
  have hedit : (c.takePending s).tree =
      (c.edit s fun data => { data with pendingTransaction := c.heap.allocated }).tree := rfl
  rw [hedit]
  exact tree_edit (by simp)

theorem tree_fuse : (c.fuse child p).tree = c.tree := tree_takePending

theorem tree_bumpCommit : (c.bumpCommit s).tree = c.tree := tree_edit (by simp)

/-- Raising the id of `s` commutes with merging its transaction. -/
theorem fuse_bumpCommit (hne : s ≠ p) : (c.fuse s p).bumpCommit s = (c.bumpCommit s).fuse s p := by
  have hsurfaces : ((c.fuse s p).bumpCommit s).surfaces = ((c.bumpCommit s).fuse s p).surfaces := by
    funext q
    by_cases hq : q = s
    · simp [fuse, takePending, bumpCommit, edit]
    · simp [fuse, takePending, bumpCommit, edit]
  have halive : c.alive = (c.bumpCommit s).alive := by
    funext q
    by_cases hq : q = s
    · subst hq
      simp [alive, bumpCommit]
    · simp [alive, bumpCommit, edit_of_ne _ hq]
  have hheap : ((c.fuse s p).bumpCommit s).heap = ((c.bumpCommit s).fuse s p).heap := by
    rw [fuse, fuse, ← halive]
    simp [takePending, bumpCommit, edit, hne.symm]
  exact Client.ext hsurfaces rfl hheap rfl rfl rfl rfl rfl

variable [Cacheable T]

theorem tree_cacheCommit (commit : Option Nat) : (c.cacheCommit s commit).tree = c.tree :=
  tree_edit (by simp)

theorem tree_commitSelf : (c.commitSelf s).tree = c.tree := by
  rw [commitSelf, tree_bumpCommit]
  exact tree_cacheCommit _

theorem commitIntoParent_eq (hne : s ≠ p) : c.commitIntoParent s p = (c.commitSelf s).fuse s p := by
  exact fuse_bumpCommit hne

/-- The commits of the surfaces `S` are gathered in the transaction of `target`. -/
structure Gather (S : Surface → Prop) (target : Surface) (c c' : Client T) : Prop where
  owned : Owned c'
  tree : c'.tree = c.tree
  count : c'.count = c.count
  queue : c'.queue = c.queue
  signaled : c'.signaled = c.signaled
  steps : Relation.ReflTransGen Ledger.Step c.ledger c'.ledger
  emptied : ∀ q, S q → q ≠ target → c'.ledger.pending q = {}
  others : ∀ q, ¬ S q → q ≠ target → c'.ledger.pending q = c.ledger.pending q
  names : ∀ u, (c'.ledger.pending target).Names u →
    (c.ledger.pending target).Names u ∨ ∃ q, S q ∧ (u = q ∨ (c.ledger.pending q).Names u)
  grows : ∀ u, (c.ledger.pending target).Names u → (c'.ledger.pending target).Names u
  blockers : ∀ b ∈ (c.ledger.pending target).blockers, b ∈ (c'.ledger.pending target).blockers
  takes : (∃ q, S q) → ∃ u, (c'.ledger.pending target).Names u

namespace Gather

variable {S S' : Surface → Prop} {target : Surface}

theorem refl (h : Owned c) : Gather (fun _ => False) target c c where
  owned := h
  tree := rfl
  count := rfl
  queue := rfl
  signaled := rfl
  steps := .refl
  emptied _ h := h.elim
  others _ _ _ := rfl
  names _ h := .inl h
  grows _ h := h
  blockers _ h := h
  takes h := h.elim fun _ hq => hq.elim

theorem trans (h : Gather S target c c') (h' : Gather S' target c' c'') :
    Gather (fun q => S q ∨ S' q) target c c'' where
  owned := h'.owned
  tree := h'.tree.trans h.tree
  count := h'.count.trans h.count
  queue := h'.queue.trans h.queue
  signaled := h'.signaled.trans h.signaled
  steps := h.steps.trans h'.steps
  emptied q hq hne := by
    grind [h'.emptied, h'.others, h.emptied]
  others q hq hne := by
    grind [h'.others, h.others]
  names u hu := by
    have hfirst : ∀ u, (c'.ledger.pending target).Names u → (c.ledger.pending target).Names u ∨
        ∃ q, (S q ∨ S' q) ∧ (u = q ∨ (c.ledger.pending q).Names u) := by
      intro u hu
      obtain hold | ⟨q, hq, hu⟩ := h.names u hu
      · exact .inl hold
      · exact .inr ⟨q, .inl hq, hu⟩
    obtain hold | ⟨q, hq, rfl | hold⟩ := h'.names u hu
    · exact hfirst u hold
    · exact .inr ⟨u, .inr hq, .inl rfl⟩
    · by_cases hqt : q = target
      · exact hfirst u (hqt ▸ hold)
      · by_cases hS : S q
        · -- what is emptied has nothing left to name
          rw [h.emptied q hS hqt] at hold
          obtain ⟨k, hk⟩ := hold
          cases hk
        grind [h.others]
  grows u hu := h'.grows u (h.grows u hu)
  blockers b hb := h'.blockers b (h.blockers b hb)
  takes hq := by
    obtain ⟨q, hS | hS'⟩ := hq
    · obtain ⟨u, hu⟩ := h.takes ⟨q, hS⟩
      exact ⟨u, h'.grows u hu⟩
    · exact h'.takes ⟨q, hS'⟩

/-- What was gathered for `s` goes on to `p` together with `s` itself. -/
theorem relay (h : Gather S s c c') (h' : Gather (fun q => q = s) p c' c'') (hps : p ≠ s) (hp : ¬ S p) :
    Gather (fun q => q = s ∨ S q) p c c'' where
  owned := h'.owned
  tree := h'.tree.trans h.tree
  count := h'.count.trans h.count
  queue := h'.queue.trans h.queue
  signaled := h'.signaled.trans h.signaled
  steps := h.steps.trans h'.steps
  emptied q hq hne := by
    grind [h'.emptied, h'.others, h.emptied]
  others q hq hne := by
    grind [h'.others, h.others]
  names u hu := by
    grind [h'.names, h.others, h.names]
  grows u hu := by
    apply h'.grows u
    rwa [h.others p hp hps]
  blockers b hb := by
    apply h'.blockers b
    rwa [h.others p hp hps]
  takes _ := h'.takes ⟨s, rfl⟩

theorem congr (h : Gather S target c c') (hS : ∀ q, S q ↔ S' q) : Gather S' target c c' := by
  have heq : S = S' := funext fun q => propext (hS q)
  exact heq ▸ h

end Gather

structure Ready (tree : Surface → Node) (count : Nat) (c : Client T) : Prop where
  owned : Owned c
  tree : c.tree = tree
  count : c.count = count
  sound : Ledger.Sound c.ledger

theorem sound_of_steps {L L' : Ledger} (h : Relation.ReflTransGen Ledger.Step L L') (hs : Ledger.Sound L) :
    Ledger.Sound L' := by
  induction h with
  | refl => exact hs
  | tail _ hstep ih => exact hstep.sound ih

section Walk

variable {tree : Surface → Node} {count : Nat} {S : Surface → Prop} {target : Surface}

theorem Gather.ready (h : Gather S target c c') (hc : Ready tree count c) : Ready tree count c' where
  owned := h.owned
  tree := h.tree.trans hc.tree
  count := h.count.trans hc.count
  sound := sound_of_steps h.steps hc.sound

section

variable (h : Ready tree count c)
include h

theorem Ready.alive_iff : c.alive s = true ↔ (tree s).alive = true := by
  rw [← h.tree]
  rfl

theorem Ready.lt (hs : (tree s).alive = true) : s < c.count :=
  h.owned.known s (h.alive_iff.mpr hs)

theorem Ready.ledger_commitSelf (hs : (tree s).alive = true) : (c.commitSelf s).ledger = c.ledger.stage s :=
  Client.ledger_commitSelf h.owned (h.lt hs) (h.sound.shelf s).fresh

theorem commitIntoParent_gathers (hs : (tree s).alive = true) (hp : (tree p).alive = true)
    (hne : s ≠ p) : Gather (fun q => q = s) p c (c.commitIntoParent s p) := by
  have hself := h.ledger_commitSelf hs
  have howned := h.owned.commitSelf (h.lt hs)
  have hledger : (c.commitIntoParent s p).ledger = (c.ledger.stage s).fuse s p := by
    rw [commitIntoParent_eq hne, ledger_fuse howned (h.lt hs) (h.lt hp) hne, hself]
  have halive : c.ledger.alive s = true := h.alive_iff.mpr hs
  have htarget : (c.commitIntoParent s p).ledger.pending p =
      (c.ledger.pending p).absorb c.ledger.alive ((c.ledger.stage s).pending s) := by
    rw [hledger]
    simp [Ledger.fuse, Ledger.stage, hne.symm]
  have hstaged : ((c.ledger.stage s).pending s).surfaces =
      TransactionState.insertLoop s (c.ledger.current s) (c.ledger.pending s).surfaces := by
    simp [Ledger.stage, TransactionState.insert]
  rw [commitIntoParent_eq hne] at hledger htarget ⊢
  refine { owned := howned.fuse (h.lt hs) (h.lt hp) hne, tree := tree_fuse.trans tree_commitSelf, count := rfl,
           queue := rfl, signaled := rfl, steps := ?_, emptied := ?_, others := ?_, names := ?_, grows := ?_,
           blockers := ?_, takes := ?_ }
  · rw [hledger]
    exact (Relation.ReflTransGen.single (.stage s halive)).tail (.fuse s p hne halive (h.alive_iff.mpr hp))
  · rw [hledger]
    simp [Ledger.fuse, hne]
  · intro q hqs hqp
    rw [hledger]
    simp [Ledger.fuse, Ledger.stage, hqs, hqp]
  · rintro u ⟨k, hk⟩
    rw [htarget] at hk
    obtain hold | ⟨hstage, -⟩ := TransactionState.mem_takeOver hk
    · exact .inl ⟨k, hold⟩
    · rw [hstaged] at hstage
      obtain hold | hnew := TransactionState.mem_insertLoop hstage
      · exact .inr ⟨s, rfl, .inr ⟨k, hold⟩⟩
      grind
  · intro u hu
    rw [htarget]
    exact TransactionState.names_takeOver_left hu
  · intro b hb
    rw [htarget]
    exact List.mem_append_left _ hb
  · intro _
    refine ⟨s, ?_⟩
    rw [htarget]
    refine TransactionState.names_takeOver_right halive ?_
    rw [hstaged]
    exact TransactionState.names_insertLoop_self

end

theorem foldlM_gathers {step : Client T → Surface → Except Fault (Client T)} {B : Surface → Surface → Prop}
    {children : List Surface} (hstep : ∀ c child, Ready tree count c → child ∈ children →
      ∃ c', step c child = .ok c' ∧ Gather (B child) target c c') (hc : Ready tree count c) :
    ∃ c', children.foldlM step c = .ok c' ∧ Gather (fun q => ∃ child ∈ children, B child q) target c c' := by
  obtain ⟨c', hfold, -, hgather⟩ := foldlM_related (P := Ready tree count)
    (R := fun rest c c' => Gather (fun q => ∃ child ∈ rest, B child q) target c c')
    (fun c hc => (Gather.refl hc.owned).congr (by simp))
    (fun c child hc hmem => by
      obtain ⟨c', hrun, hgather⟩ := hstep c child hc hmem
      refine ⟨c', hrun, hgather.ready hc, fun rest c'' hrest => ?_⟩
      exact (hgather.trans hrest).congr (by simp)) hc
  exact ⟨c', hfold, hgather⟩

/-- A rank grows from the root down, so that it bounds the walk. -/
structure Ranked (tree : Surface → Node) (count : Nat) (rank : Surface → Nat) : Prop where
  bound : ∀ s, (tree s).alive = true → rank s ≤ count
  pos : ∀ s, (tree s).alive = true → 0 < rank s
  step : ∀ s p, (tree s).alive = true → (tree s).parent = some p → rank p < rank s

variable {rank : Surface → Nat}

theorem Ranked.le_of_under (hplanted : Planted tree) (hrank : Ranked tree count rank) {q : Surface}
    (h : Under tree s q) : rank s ≤ rank q := by
  induction h with
  | refl => exact Nat.le_refl _
  | @tail p child _ hstep ih => grind +splitImp +splitIndPred

/-- `commit_sync_tree` comes back with the commits of the whole subtree in the transaction of the
parent. -/
theorem commitSyncTree_gathers (hplanted : Planted tree) (hrank : Ranked tree count rank) :
    ∀ (fuel : Nat) (s p : Surface) (c : Client T), count < fuel + rank s → Ready tree count c →
      (tree s).alive = true → (tree p).alive = true → rank p < rank s →
      ∃ c', commitSyncTree fuel s p c = .ok c' ∧ Gather (Under tree s) p c c' := by
  intro fuel
  induction fuel with
  | zero =>
    intro s p c hfuel _ hs
    have := hrank.bound s hs
    omega
  | succ fuel ih =>
    intro s p c hfuel hc hs hp hlt
    have hne : s ≠ p := by
      rintro rfl
      omega
    have hchildren : (c.surfaces s).children = (tree s).children := congrArg (fun tree => (tree s).children) hc.tree
    have hstep : ∀ c child, Ready tree count c → child ∈ (tree s).children →
        ∃ c', (if child = s then pure c else commitSyncTree fuel child s c : Except Fault (Client T)) = .ok c' ∧
          Gather (fun q => child ≠ s ∧ Under tree child q) s c c' := by
      intro c child hc hmem
      by_cases hchild : child = s
      · rw [if_pos hchild]
        exact ⟨c, rfl, (Gather.refl hc.owned).congr (by simp [hchild])⟩
      · have halive := hplanted.living s child hmem
        have hbelow := hrank.step child s halive (hplanted.children s child hmem hchild)
        obtain ⟨c', hrun, hgather⟩ := ih child s c (by omega) hc halive hs hbelow
        grind -linarith [hgather.congr]
    obtain ⟨c₁, hfold, hgather⟩ := foldlM_gathers hstep hc
    refine ⟨c₁.commitIntoParent s p, ?_, ?_⟩
    · rw [commitSyncTree, hchildren, hfold]
      rfl
    · -- the commits below `s` are in its own transaction by now, and go along with it
      have hown := commitIntoParent_gathers (hgather.ready hc) hs hp hne
      have habove : ¬ ∃ child ∈ (tree s).children, child ≠ s ∧ Under tree child p := by
        rintro ⟨child, hmem, hchild, hunder⟩
        have h1 := hrank.step child s (hplanted.living s child hmem) (hplanted.children s child hmem hchild)
        have h2 := hrank.le_of_under hplanted hunder
        omega
      refine (hgather.relay hown hne.symm habove).congr fun q => ⟨?_, fun h => h.cases⟩
      rintro (rfl | ⟨child, hmem, hchild, hunder⟩)
      · exact .refl
      · exact hunder.child hmem hchild

end Walk

end Client

end TensorDE.Wm.Compositor
