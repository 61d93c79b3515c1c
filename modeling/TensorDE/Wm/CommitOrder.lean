import TensorDE.Lib.Trace
import TensorDE.Wm.SurfaceGather

set_option linter.dupNamespace false

namespace TensorDE.Wm.Compositor.Client

open Effect Trace

variable {T : Type} [Cacheable T] {c c' : Client T} {s p q : Surface}

/-- The surfaces whose pending transactions a commit of `s` takes when `s` is not synchronized:
`s` and what is below its synchronized children. -/
def Joined (c : Client T) (s q : Surface) : Prop :=
  q = s ∨ ∃ child ∈ (c.surfaces s).children, child ≠ s ∧ c.directSync child = true ∧ Under c.tree child q

/-- No open transaction of another surface names a living surface that the commit is about; and if
the commit finds nothing pending and no synchronized child, so that it goes to the current state at
once, every queued transaction that names the surface is released. -/
structure Orderly (c : Client T) (s : Surface) : Prop where
  apart : ∀ p, ¬ c.Joined s p → c.ledger.Open p → ∀ q, c.Joined s q → ∀ u, c.alive u = true →
    u = q ∨ (c.ledger.pending q).Names u → ¬ (c.ledger.pending p).Names u
  clear : (c.ledger.pending s).isEmpty = true → (∀ q, c.Joined s q → q = s) →
    ∀ X ∈ c.queue, X.Names s → c.ledger.Released X

structure Keeps (c : Client T) : Prop where
  owned : Owned c
  planted : Planted c.tree
  sound : Ledger.Sound c.ledger
  parents : ∀ s p, (c.tree s).parent = some p → p < c.count

theorem Keeps.ready (h : Keeps c) : Ready c.tree c.count c where
  owned := h.owned
  tree := rfl
  count := rfl
  sound := h.sound

theorem Keeps.ranked (h : Keeps c) : ∃ rank, Ranked c.tree c.count rank := by
  obtain ⟨rank, hbound, hpos, hstep⟩ := Forest.exists_rank h.planted.forest (Finset.range c.count)
  rw [Finset.card_range] at hbound
  have hmem : ∀ s, (c.tree s).alive = true → s ∈ Finset.range c.count :=
    fun s hs => Finset.mem_range.mpr (h.owned.known s hs)
  exact ⟨rank, fun s hs => hbound s (hmem s hs), fun s hs => hpos s (hmem s hs),
    fun s p hs hp => hstep s (hmem s hs) p hp⟩

section Commit

variable {X : Transaction}

theorem mem_isEmpty : X.isEmpty = true ↔ X.surfaces = [] ∧ X.blockers = [] := by
  simp [TransactionState.isEmpty]

theorem not_names_of_empty (h : X.surfaces = []) (u : Surface) : ¬ X.Names u := by
  rintro ⟨k, hk⟩
  rw [h] at hk
  cases hk

variable {S : Surface → Prop}

theorem Gather.ledger_queue (h : Gather S s c c') : c'.ledger.queue = c.ledger.queue := h.queue

theorem Gather.ledger_signaled (h : Gather S s c c') : c'.ledger.signaled = c.ledger.signaled :=
  h.signaled

theorem Gather.isEmpty_of_isEmpty (h : Gather S s c c')
    (hempty : (c'.ledger.pending s).surfaces = [] ∧ (c'.ledger.pending s).blockers = []) :
    (c.ledger.pending s).isEmpty = true := by
  refine (mem_isEmpty).mpr ⟨List.eq_nil_iff_forall_not_mem.mpr ?_, List.eq_nil_iff_forall_not_mem.mpr ?_⟩
  · rintro ⟨u, k⟩ hmem
    exact not_names_of_empty hempty.1 u (h.grows u ⟨k, hmem⟩)
  · intro b hb
    have := h.blockers b hb
    rw [hempty.2] at this
    cases this

theorem Owned.takeReady (h : Owned c) : Owned c.takeReady where
  sole := h.sole
  apart := h.apart
  known := h.known
  blank := h.blank

theorem tree_finalized (h : Owned c) (hs : s < c.count) (hc : c.finalizePending s = .ok c') : c'.tree = c.tree := by
  rw [finalizePending_eq h hs] at hc
  obtain rfl := Except.ok.inj hc
  exact tree_takePending

theorem commitChild_unsynchronized (h : Keeps c) (hs : c.alive s = true) :
    ∃ c', (c.surfaces s).children.foldlM (fun c child => commitChild false s child c) c = .ok c' ∧
      Gather (fun q => ∃ child ∈ (c.surfaces s).children, child ≠ s ∧ c.directSync child = true ∧
        Under c.tree child q) s c c' := by
  obtain ⟨rank, hrank⟩ := h.ranked
  refine foldlM_gathers (fun c₁ child hc hmem => ?_) h.ready
  have hsync : c₁.directSync child = c.directSync child := congrArg (fun tree => (tree child).sync.getD false) hc.tree
  rw [commitChild]
  by_cases hchild : child = s
  · rw [if_pos hchild]
    exact ⟨c₁, rfl, (Gather.refl hc.owned).congr (by simp [hchild])⟩
  · rw [if_neg hchild, hsync]
    cases hdirect : c.directSync child with
    | false => exact ⟨c₁, rfl, (Gather.refl hc.owned).congr (by simp)⟩
    | true =>
      have halive := h.planted.living s child hmem
      have hbelow := hrank.step child s halive (h.planted.children s child hmem hchild)
      obtain ⟨c₂, hrun, hgather⟩ := commitSyncTree_gathers h.planted hrank c₁.count child s c₁
        (by rw [hc.count]; omega) hc halive hs hbelow
      grind [hgather.congr]

theorem commitChild_synchronized (h : Keeps c) (hs : c.alive s = true) :
    ∃ c', (c.surfaces s).children.foldlM (fun c child => commitChild true s child c) c = .ok c' ∧
      Ready c.tree c.count c' ∧ Relation.ReflTransGen Ledger.Step c.ledger c'.ledger := by
  refine foldlM_related (P := Ready c.tree c.count)
    (R := fun _ c c' => Relation.ReflTransGen Ledger.Step c.ledger c'.ledger)
    (fun _ _ => .refl) (fun c₁ child hc hmem => ?_) h.ready
  rw [commitChild]
  by_cases hchild : child = s
  · rw [if_pos hchild]
    exact ⟨c₁, rfl, hc, fun _ _ hrest => hrest⟩
  · have halive := h.planted.living s child hmem
    have hlt := hc.lt halive
    have hbump := hc.owned.bumpCommit hlt
    have hledger : ((c₁.bumpCommit child).fuse child s).ledger = (c₁.ledger.bump child).fuse child s := by
      rw [ledger_fuse hbump hlt (hc.lt hs) hchild, ledger_bumpCommit]
    have hsteps : Relation.ReflTransGen Ledger.Step c₁.ledger ((c₁.bumpCommit child).fuse child s).ledger := by
      rw [hledger]
      exact (Relation.ReflTransGen.single (.bump child)).tail
        (.fuse child s hchild (hc.alive_iff.mpr halive) (hc.alive_iff.mpr hs))
    rw [if_neg hchild]
    refine ⟨(c₁.bumpCommit child).fuse child s, by rfl, ?_, fun _ _ hrest => hsteps.trans hrest⟩
    exact ⟨hbump.fuse hlt (hc.lt hs) hchild, (tree_fuse.trans tree_bumpCommit).trans hc.tree, hc.count,
      sound_of_steps hsteps hc.sound⟩

theorem open_of_gather (hgather : Gather S s c c') (hp : ¬ S p) (hps : p ≠ s)
    (h : c'.ledger.Open p) : c.ledger.Open p := by
  have halive : c'.ledger.alive p = c.ledger.alive p := congrArg (fun tree => (tree p).alive) hgather.tree
  have hsignaled : c'.ledger.signaled = c.ledger.signaled := hgather.signaled
  grind [Ledger.Open, Ledger.Released, hgather.others]

variable {u : Surface}

theorem names_of_gather (hgather : Gather S s c c') (hu : u = s ∨ (c'.ledger.pending s).Names u) :
    ∃ q, (q = s ∨ S q) ∧ (u = q ∨ (c.ledger.pending q).Names u) := by
  grind [hgather.names]

theorem Orderly.apart_gathered (h : Orderly c s) (hS : ∀ q, c.Joined s q ↔ q = s ∨ S q)
    (hgather : Gather S s c c') (halive : c.alive u = true)
    (hu : u = s ∨ (c'.ledger.pending s).Names u) (hps : p ≠ s) (hp : c'.ledger.Open p) :
    ¬ (c'.ledger.pending p).Names u := by
  by_cases hSp : S p
  · rw [hgather.emptied p hSp hps]
    rintro ⟨k, hk⟩
    cases hk
  grind -linarith [names_of_gather, hgather.others, h.apart, open_of_gather]

theorem count_finalized (h : Owned c) (hs : s < c.count) (hc : c.finalizePending s = .ok c') : c'.count = c.count := by
  rw [finalizePending_eq h hs] at hc
  obtain rfl := Except.ok.inj hc
  rfl

omit [Cacheable T] in
theorem joined_iff : c.Joined s q ↔ q = s ∨
    ∃ child ∈ (c.surfaces s).children, child ≠ s ∧ c.directSync child = true ∧ Under c.tree child q := Iff.rfl

theorem finishCommit_unsynchronized (h : Keeps c) (hs : c.alive s = true)
    (hgather : Gather (fun q => ∃ child ∈ (c.surfaces s).children, child ≠ s ∧ c.directSync child = true ∧
      Under c.tree child q) s c c') :
    ∃ c'', c'.finishCommit false s = .ok c'' ∧ Owned c'' ∧ c''.tree = c.tree ∧ c''.count = c.count ∧
      (Orderly c s → Relation.ReflTransGen Ledger.Step c'.ledger c''.ledger) := by
  have hc := hgather.ready h.ready
  have hlt := hc.lt hs
  have halive : ∀ u, c'.alive u = c.alive u := fun u => congrArg (fun tree => (tree u).alive) hgather.tree
  rw [finishCommit]
  cases hempty : (c'.pending s).isEmpty with
  | true =>
    refine ⟨c'.cacheCommit s none, rfl, hc.owned.cacheCommit hlt _, (tree_cacheCommit _).trans hc.tree, hc.count,
      fun ho => ?_⟩
    rw [← ledger_pending hlt, mem_isEmpty] at hempty
    rw [ledger_cacheCommit_none]
    refine .single (.settle s (hc.alive_iff.mpr hs) ⟨fun p hp => ?_, fun X hX hnames => ?_⟩)
    · grind -linarith [not_names_of_empty, ho.apart_gathered, joined_iff]
    · rw [hgather.ledger_queue] at hX
      have hfree : c.ledger.Released X := by
        refine ho.clear (hgather.isEmpty_of_isEmpty hempty) (fun q hq => hq.resolve_right fun hS => ?_) X hX hnames
        obtain ⟨u, hu⟩ := hgather.takes ⟨q, hS⟩
        exact not_names_of_empty hempty.1 u hu
      rwa [Ledger.Released, hgather.ledger_signaled]
  | false =>
    have hself := hc.owned.commitSelf hlt
    obtain ⟨c₂, hfinal⟩ : ∃ c₂, (c'.commitSelf s).finalizePending s = .ok c₂ := ⟨_, finalizePending_eq hself hlt⟩
    refine ⟨c₂.takeReady, ?_, (hself.finalized hlt hfinal).takeReady, ?_, ?_, fun ho => ?_⟩
    · simp only [hfinal]
      rfl
    · exact (tree_finalized hself hlt hfinal).trans (tree_commitSelf.trans hc.tree)
    · exact (count_finalized hself hlt hfinal).trans hc.count
    · have hledger : c₂.takeReady.ledger = ((c'.ledger.stage s).enqueue s).sweep := by
        rw [← hc.ledger_commitSelf hs, ← ledger_finalized hself hlt hfinal]
        rfl
      have hstage : Ledger.Step c'.ledger (c'.ledger.stage s) := .stage s (hc.alive_iff.mpr hs)
      have henqueue : Ledger.Step (c'.ledger.stage s) ((c'.ledger.stage s).enqueue s) := by
        refine .enqueue s (hc.alive_iff.mpr hs) fun p hps hp u hu hnames => ?_
        have hpending : (c'.ledger.stage s).pending p = c'.ledger.pending p := Function.update_of_ne hps ..
        rw [hpending]
        refine ho.apart_gathered (fun _ => joined_iff) hgather ((halive u).symm.trans hu) ?_ hps (Ledger.open_stage.mp hp)
        exact Ledger.names_stage hnames
      rw [hledger]
      exact ((Relation.ReflTransGen.single hstage).tail henqueue).tail .sweep

/-- `commit` comes back. When the surface is synchronized, or the commit orderly, it takes steps of
the ledger only. -/
theorem Keeps.commit (h : Keeps c) (hs : c.alive s = true) :
    ∃ c', c.commit s = .ok c' ∧ Owned c' ∧ c'.tree = c.tree ∧ c'.count = c.count ∧ (c.effectivelySync s = true ∨ Orderly c s →
      Relation.ReflTransGen Ledger.Step c.ledger c'.ledger) := by
  have hdef : c.commit s = ((c.surfaces s).children.foldlM
      (fun c₁ child => commitChild (c.effectivelySync s) s child c₁) c >>= finishCommit (c.effectivelySync s) s) := rfl
  cases hsync : c.effectivelySync s with
  | true =>
    obtain ⟨c₁, hfold, hc, hsteps⟩ := commitChild_synchronized h hs
    refine ⟨c₁.commitSelf s, ?_, hc.owned.commitSelf (hc.lt hs), tree_commitSelf.trans hc.tree, hc.count, fun _ => ?_⟩
    · rw [hdef, hsync, hfold]
      rfl
    · rw [hc.ledger_commitSelf hs]
      exact hsteps.tail (.stage s (hc.alive_iff.mpr hs))
  | false =>
    obtain ⟨c₁, hfold, hgather⟩ := commitChild_unsynchronized h hs
    rw [hsync, hfold] at hdef
    obtain ⟨c', hrun, howned, htree, hcount, hsteps⟩ := finishCommit_unsynchronized h hs hgather
    refine ⟨c', hdef.trans hrun, howned, htree, hcount, fun horderly => ?_⟩
    exact hgather.steps.trans (hsteps (horderly.resolve_left (by decide)))

end Commit

end TensorDE.Wm.Compositor.Client
