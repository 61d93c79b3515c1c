import TensorDE.Wm.SurfaceTree
import TensorDE.Wm.CommitLedger

set_option linter.dupNamespace false

namespace TensorDE.Wm.Compositor.Client

variable {T : Type} {c : Client T} {s p : Surface}

/-- The ledger of a client: each surface with the transaction its handle leads to. -/
def ledger (c : Client T) : Ledger where
  alive := c.alive
  signaled := c.signaled
  shelf s := (c.surfaces s).cachedState.shelf
  current s := (c.surfaces s).currentCommit
  issued s := (c.surfaces s).issued
  pending s := if s < c.count then c.pending s else {}
  queue := c.queue
  work := c.work
  retired := c.retired
  cancelled := c.cancelled

theorem ledger_pending (hs : s < c.count) : c.ledger.pending s = c.pending s := if_pos hs

variable (change : PrivateSurfaceData T → PrivateSurfaceData T)

@[simp] theorem edit_self :
    (c.edit s change).surfaces s = change (c.surfaces s) := Function.update_self ..

theorem edit_of_ne (h : p ≠ s) :
    (c.edit s change).surfaces p = c.surfaces p := Function.update_of_ne h ..

section Edit

variable {change : PrivateSurfaceData T → PrivateSurfaceData T}

theorem field_edit {α : Type} (field : PrivateSurfaceData T → α)
    (h : field (change (c.surfaces s)) = field (c.surfaces s)) (p : Surface) :
    field ((c.edit s change).surfaces p) = field (c.surfaces p) := by
  grind [edit_self, edit_of_ne]

theorem pending_edit (h : (change (c.surfaces s)).pendingTransaction = (c.surfaces s).pendingTransaction) (p : Surface) :
    (c.edit s change).pending p = c.pending p := by
  rw [pending, field_edit PrivateSurfaceData.pendingTransaction h]
  rfl

theorem ledger_edit (halive : (change (c.surfaces s)).alive = (c.surfaces s).alive)
    (hpending : (change (c.surfaces s)).pendingTransaction = (c.surfaces s).pendingTransaction) :
    (c.edit s change).ledger =
      { c.ledger with
        shelf := Function.update c.ledger.shelf s (change (c.surfaces s)).cachedState.shelf
        current := Function.update c.ledger.current s (change (c.surfaces s)).currentCommit
        issued := Function.update c.ledger.issued s (change (c.surfaces s)).issued } := by
  have hfield : ∀ {α : Type} (field : PrivateSurfaceData T → α),
      (fun p => field ((c.edit s change).surfaces p)) =
        Function.update (fun p => field (c.surfaces p)) s (field (change (c.surfaces s))) := by
    intro α field
    funext p
    by_cases hp : p = s
    · subst hp
      simp
    · rw [edit_of_ne change hp, Function.update_of_ne hp]
  apply Ledger.ext
  · funext p
    exact field_edit PrivateSurfaceData.alive halive p
  · rfl
  · exact hfield fun data => data.cachedState.shelf
  · exact hfield PrivateSurfaceData.currentCommit
  · exact hfield PrivateSurfaceData.issued
  · simp only [ledger, pending_edit hpending]
    rfl
  · rfl
  · rfl
  · rfl
  · rfl

/-- An edit that changes nothing the ledger is about. -/
structure Quiet (data data' : PrivateSurfaceData T) : Prop where
  alive : data'.alive = data.alive
  shelf : data'.cachedState.shelf = data.cachedState.shelf
  pendingTransaction : data'.pendingTransaction = data.pendingTransaction
  currentCommit : data'.currentCommit = data.currentCommit
  issued : data'.issued = data.issued

theorem ledger_bumpCommit : (c.bumpCommit s).ledger = c.ledger.bump s := by
  rw [bumpCommit, ledger_edit rfl rfl]
  apply Ledger.ext <;> try rfl
  · exact Function.update_eq_self s _
  · exact Function.update_eq_self s _

end Edit

section Take

theorem takePending_self : ((c.takePending s).surfaces s).pendingTransaction = c.heap.allocated := by
  rw [takePending, edit_self]

theorem takePending_of_ne (hps : p ≠ s) : (c.takePending s).surfaces p = c.surfaces p := by
  rw [takePending, edit_of_ne _ hps]

theorem alive_takePending : (c.takePending s).alive p = c.alive p := by
  grind [alive, takePending, edit_self, takePending_of_ne]

theorem sole_fresh : (c.takePending s).heap.Sole ((c.takePending s).surfaces s).pendingTransaction {} := by
  rw [takePending_self]
  exact ⟨Nat.lt_succ_self _, by simp [takePending, Heap.new]⟩

theorem ledger_of_take {heap : Heap} {view : Surface → TransactionState} (queue : List Transaction)
    (hsole : ∀ q < c.count, heap.Sole ((c.takePending s).surfaces q).pendingTransaction (view q))
    {pending : Surface → Transaction} (hin : ∀ q < c.count, view q = pending q) (hout : ∀ q, ¬ q < c.count → pending q = {}) :
    ({ c.takePending s with heap, queue } : Client T).ledger = { c.ledger with pending, queue } := by
  have hfield : ∀ {α : Type} (field : PrivateSurfaceData T → α), (∀ data handle,
      field { data with pendingTransaction := handle } = field data) →
      ∀ q, field ((c.takePending s).surfaces q) = field (c.surfaces q) := by
    intro α field hsame q
    by_cases hq : q = s
    · subst hq
      rw [takePending, edit_self, hsame]
    · rw [takePending_of_ne hq]
  apply Ledger.ext
  · funext q
    exact alive_takePending
  · rfl
  · funext q
    exact hfield (fun data => data.cachedState.shelf) (fun _ _ => rfl) q
  · funext q
    exact hfield PrivateSurfaceData.currentCommit (fun _ _ => rfl) q
  · funext q
    exact hfield PrivateSurfaceData.issued (fun _ _ => rfl) q
  · funext q
    by_cases hq : q < c.count
    · exact (if_pos hq).trans ((hsole q hq).state.trans (hin q hq))
    · exact (if_neg hq).trans (hout q hq).symm
  · rfl
  · rfl
  · rfl
  · rfl

end Take

variable [Cacheable T]

structure Owned (c : Client T) : Prop where
  sole : ∀ s < c.count, c.heap.Sole (c.surfaces s).pendingTransaction (c.pending s)
  apart : ∀ s < c.count, ∀ p < c.count,
    (c.surfaces s).pendingTransaction = (c.surfaces p).pendingTransaction → s = p
  known : ∀ s, c.alive s = true → s < c.count
  blank : ∀ s, c.count ≤ s → c.surfaces s = { cachedState := .initial }

theorem Owned.edit {change : PrivateSurfaceData T → PrivateSurfaceData T} (h : Owned c) (hs : s < c.count)
    (hpending : (change (c.surfaces s)).pendingTransaction = (c.surfaces s).pendingTransaction) :
    Owned (c.edit s change) where
  sole p hp := by
    rw [field_edit PrivateSurfaceData.pendingTransaction hpending, pending_edit hpending]
    exact h.sole p hp
  apart p hp q hq := by
    rw [field_edit PrivateSurfaceData.pendingTransaction hpending,
      field_edit PrivateSurfaceData.pendingTransaction hpending]
    exact h.apart p hp q hq
  known p hp := by
    by_cases hps : p = s
    · exact hps ▸ hs
    · rw [alive, edit_of_ne change hps] at hp
      exact h.known p hp
  blank p hp := by
    have hne : p ≠ s := fun heq => absurd hs (Nat.not_lt.mpr (heq ▸ hp))
    rw [edit_of_ne change hne]
    exact h.blank p hp

section WithState

variable (change : TransactionState → TransactionState)

theorem sole_withState (h : Owned c) (hs : s < c.count) (hp : p < c.count) :
    (c.heap.withState (c.surfaces s).pendingTransaction change).Sole (c.surfaces p).pendingTransaction
      (if p = s then change (c.pending s) else c.pending p) := by
  rw [(h.sole s hs).withState]
  refine ⟨(h.sole p hp).1, ?_⟩
  by_cases hps : p = s
  · subst hps
    simp [Heap.write]
  · have hne := fun heq => hps (h.apart p hp s hs heq)
    simp only [Heap.write, Function.update_of_ne hne, if_neg hps]
    exact (h.sole p hp).2

theorem Owned.withState (h : Owned c) (hs : s < c.count) :
    Owned { c with heap := c.heap.withState (c.surfaces s).pendingTransaction change } where
  sole p hp := by
    have hsole := sole_withState change h hs hp
    rw [pending, hsole.state]
    exact hsole
  apart := h.apart
  known := h.known
  blank := h.blank

theorem ledger_withState (h : Owned c) (hs : s < c.count) :
    ({ c with heap := c.heap.withState (c.surfaces s).pendingTransaction change } : Client T).ledger =
      { c.ledger with pending := Function.update c.ledger.pending s (change (c.ledger.pending s)) } := by
  apply Ledger.ext <;> try rfl
  funext p
  by_cases hp : p < c.count
  · have hsole := sole_withState change h hs hp
    have hleft : (if p < c.count then
        c.heap.withState (c.surfaces s).pendingTransaction change |>.state (c.surfaces p).pendingTransaction else {}) =
        (if p = s then change (c.pending s) else c.pending p) := by
      rw [if_pos hp, hsole.state]
    refine hleft.trans ?_
    grind [ledger_pending]
  grind [ledger]

end WithState

section Commits

theorem Owned.cacheCommit (h : Owned c) (hs : s < c.count) (commit : Option Nat) : Owned (c.cacheCommit s commit) :=
  h.edit hs rfl

theorem Owned.bumpCommit (h : Owned c) (hs : s < c.count) : Owned (c.bumpCommit s) := h.edit hs rfl

theorem Owned.commitSelf (h : Owned c) (hs : s < c.count) : Owned (c.commitSelf s) :=
  ((h.cacheCommit hs _).withState _ hs).bumpCommit hs

theorem ledger_cacheCommit_some {id : Nat} (hfresh : ∀ entry ∈ (c.ledger.shelf s).waiting, entry.1 < id) :
    (c.cacheCommit s (some id)).ledger =
      { c.ledger with
        shelf := Function.update c.ledger.shelf s ((c.ledger.shelf s).push id (c.ledger.issued s))
        issued := Function.update c.ledger.issued s (c.ledger.issued s + 1) } := by
  rw [cacheCommit, ledger_edit rfl rfl]
  apply Ledger.ext <;> try rfl
  · exact congrArg (Function.update c.ledger.shelf s) (CachedState.shelf_commit_some hfresh)
  · exact Function.update_eq_self s _

theorem ledger_commitSelf (h : Owned c) (hs : s < c.count)
    (hfresh : ∀ entry ∈ (c.ledger.shelf s).waiting, entry.1 < c.ledger.current s) :
    (c.commitSelf s).ledger = c.ledger.stage s := by
  rw [commitSelf, ledger_bumpCommit, insertPending, ledger_withState _ (h.cacheCommit hs _) hs]
  have hcache := ledger_cacheCommit_some hfresh
  have hcurrent : c.ledger.current s = (c.surfaces s).currentCommit := rfl
  rw [hcurrent] at hcache
  rw [hcache]
  rfl

theorem ledger_cacheCommit_none : (c.cacheCommit s none).ledger = c.ledger.settle s := by
  rw [cacheCommit, ledger_edit rfl rfl]
  apply Ledger.ext <;> try rfl
  · exact congrArg (Function.update c.ledger.shelf s) (CachedState.shelf_commit_none _ _)
  · exact Function.update_eq_self s _

end Commits

section Take

theorem sole_takePending (h : Owned c) (hp : p < c.count) (hps : p ≠ s) :
    (c.takePending s).heap.Sole ((c.takePending s).surfaces p).pendingTransaction (c.pending p) := by
  obtain ⟨hlt, hcell⟩ := h.sole p hp
  have hsame : ((c.takePending s).surfaces p).pendingTransaction = (c.surfaces p).pendingTransaction := by
    rw [takePending, edit_of_ne _ hps]
  rw [hsame]
  refine ⟨Nat.lt_succ_of_lt hlt, ?_⟩
  simp only [takePending, Heap.new, Function.update_of_ne (Nat.ne_of_lt hlt)]
  exact hcell

theorem sole_taken (h : Owned c) (hs : s < c.count) :
    (c.takePending s).heap.Sole (c.surfaces s).pendingTransaction (c.pending s) := by
  obtain ⟨hlt, hcell⟩ := h.sole s hs
  refine ⟨Nat.lt_succ_of_lt hlt, ?_⟩
  simp only [takePending, Heap.new, Function.update_of_ne (Nat.ne_of_lt hlt)]
  exact hcell

variable {q : Surface}

/-- Handles that were apart stay apart, the fresh one included. -/
theorem apart_takePending (h : Owned c) (hp : p < c.count) (hq : q < c.count)
    (heq : ((c.takePending s).surfaces p).pendingTransaction = ((c.takePending s).surfaces q).pendingTransaction) :
    p = q := by
  by_cases hps : p = s
  · by_cases hqs : q = s
    · rw [hps, hqs]
    · rw [hps, takePending_self, takePending_of_ne hqs] at heq
      exact absurd heq.symm (Nat.ne_of_lt (h.sole q hq).1)
  · by_cases hqs : q = s
    · rw [hqs, takePending_self, takePending_of_ne hps] at heq
      exact absurd heq (Nat.ne_of_lt (h.sole p hp).1)
    grind [takePending_of_ne, h.apart]

variable {child : Surface}

theorem sole_fuse (h : Owned c) (hchild : child < c.count) (hp : p < c.count) (hq : q < c.count) (hne : child ≠ p) :
    (c.fuse child p).heap.Sole ((c.fuse child p).surfaces q).pendingTransaction
      (if q = p then (c.pending p).absorb c.alive (c.pending child) else if q = child then {} else c.pending q) := by
  have hab : (c.surfaces child).pendingTransaction ≠ ((c.takePending child).surfaces p).pendingTransaction := by
    rw [takePending_of_ne hne.symm]
    exact fun heq => hne (h.apart child hchild p hp heq)
  have hheap : (c.fuse child p).heap = _ := (sole_taken h hchild).fuse (sole_takePending h hp hne.symm) hab c.alive
  have hsurfaces : ((c.fuse child p).surfaces q) = (c.takePending child).surfaces q := rfl
  rw [hheap, hsurfaces]
  by_cases hqp : q = p
  · subst hqp
    exact ⟨(sole_takePending h hq hne.symm).1, by simp [Heap.write]⟩
  · have hqb : ((c.takePending child).surfaces q).pendingTransaction ≠
        ((c.takePending child).surfaces p).pendingTransaction := fun heq => hqp (apart_takePending h hq hp heq)
    rw [if_neg hqp]
    by_cases hqc : q = child
    · subst hqc
      have hqa : ((c.takePending q).surfaces q).pendingTransaction ≠ (c.surfaces q).pendingTransaction := by
        rw [takePending_self]
        exact (Nat.ne_of_lt (h.sole q hq).1).symm
      refine ⟨sole_fresh.1, ?_⟩
      simp only [Heap.write, Function.update_of_ne hqb, Function.update_of_ne hqa]
      exact sole_fresh.2
    · have hqa : ((c.takePending child).surfaces q).pendingTransaction ≠ (c.surfaces child).pendingTransaction := by
        rw [takePending_of_ne hqc]
        exact fun heq => hqc (h.apart q hq child hchild heq)
      have hold := sole_takePending h hq hqc
      rw [if_neg hqc]
      refine ⟨hold.1, ?_⟩
      simp only [Heap.write, Function.update_of_ne hqb, Function.update_of_ne hqa]
      exact hold.2

section Taken

variable {heap : Heap} {view : Surface → TransactionState}

theorem Owned.of_take (h : Owned c) (hs : s < c.count) (queue : List Transaction)
    (hsole : ∀ q < c.count, heap.Sole ((c.takePending s).surfaces q).pendingTransaction (view q)) :
    Owned { c.takePending s with heap, queue } where
  sole q hq := by
    rw [pending, (hsole q hq).state]
    exact hsole q hq
  apart q hq r hr heq := apart_takePending h hq hr heq
  known q hq := h.known q (alive_takePending.symm.trans hq)
  blank q hq := by
    have hqs : q ≠ s := fun heq => absurd hs (Nat.not_lt.mpr (heq ▸ hq))
    exact (takePending_of_ne hqs).trans (h.blank q hq)

end Taken

theorem Owned.fuse (h : Owned c) (hchild : child < c.count) (hp : p < c.count) (hne : child ≠ p) :
    Owned (c.fuse child p) :=
  h.of_take hchild c.queue fun _ hq => sole_fuse h hchild hp hq hne

theorem ledger_fuse (h : Owned c) (hchild : child < c.count) (hp : p < c.count) (hne : child ≠ p) :
    (c.fuse child p).ledger = c.ledger.fuse child p := by
  refine ledger_of_take c.queue (fun _ hq => sole_fuse h hchild hp hq hne) (fun q hq => ?_) fun q hq => ?_
  · grind [ledger]
  · have hqp : q ≠ p := fun heq => hq (heq ▸ hp)
    have hqc : q ≠ child := fun heq => hq (heq ▸ hchild)
    rw [Function.update_of_ne hqp, Function.update_of_ne hqc]
    exact if_neg hq

theorem sole_finalized (h : Owned c) (hs : s < c.count) (hp : p < c.count) :
    ((c.takePending s).heap.write (c.surfaces s).pendingTransaction ⟨0, .data {}⟩).Sole
      ((c.takePending s).surfaces p).pendingTransaction (if p = s then {} else c.pending p) := by
  have hne : ((c.takePending s).surfaces p).pendingTransaction ≠ (c.surfaces s).pendingTransaction := by
    by_cases hps : p = s
    · subst hps
      rw [takePending_self]
      exact (Nat.ne_of_lt (h.sole p hp).1).symm
    · grind [takePending_of_ne, h.apart]
  by_cases hps : p = s
  · subst hps
    rw [if_pos rfl]
    exact ⟨sole_fresh.1, by simpa only [Heap.write, Function.update_of_ne hne] using sole_fresh.2⟩
  · have hold := sole_takePending h hp hps
    rw [if_neg hps]
    exact ⟨hold.1, by simpa only [Heap.write, Function.update_of_ne hne] using hold.2⟩

theorem finalizePending_eq (h : Owned c) (hs : s < c.count) :
    c.finalizePending s = .ok { c.takePending s with
      heap := (c.takePending s).heap.write (c.surfaces s).pendingTransaction ⟨0, .data {}⟩
      queue := c.queue ++ [c.pending s] } := by
  rw [finalizePending, (sole_taken h hs).finalize]
  rfl

variable {c' : Client T}

theorem Owned.finalized (h : Owned c) (hs : s < c.count) (hc : c.finalizePending s = .ok c') : Owned c' := by
  rw [finalizePending_eq h hs] at hc
  obtain rfl := Except.ok.inj hc
  exact h.of_take hs _ fun _ hq => sole_finalized h hs hq

theorem ledger_finalized (h : Owned c) (hs : s < c.count) (hc : c.finalizePending s = .ok c') :
    c'.ledger = c.ledger.enqueue s := by
  rw [finalizePending_eq h hs] at hc
  obtain rfl := Except.ok.inj hc
  rw [Ledger.enqueue, ledger_pending hs]
  refine ledger_of_take _ (fun _ hq => sole_finalized h hs hq) (fun q hq => ?_) fun q hq => ?_
  · grind [ledger_pending]
  · have hqs : q ≠ s := fun heq => hq (heq ▸ hs)
    rw [Function.update_of_ne hqs]
    exact if_neg hq

end Take

end TensorDE.Wm.Compositor.Client
