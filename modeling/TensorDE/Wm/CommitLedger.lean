import Mathlib.Tactic
import Mathlib.Data.List.TakeWhile
import TensorDE.Wm.SurfaceCache
import TensorDE.Wm.SurfaceTransaction

set_option linter.dupNamespace false

namespace TensorDE.Wm.Compositor

open List

/-- What the compositor knows about commits, without the tree, the cells behind the pending
transactions and the states: each surface has its shelf and its own pending transaction. -/
@[ext]
structure Ledger where
  alive : Surface → Bool
  signaled : Barrier → Bool
  shelf : Surface → Shelf
  current : Surface → Nat
  issued : Surface → Nat
  pending : Surface → Transaction
  queue : List Transaction
  work : List (Surface × Nat)
  retired : List Transaction
  cancelled : List Transaction

namespace Ledger

section Operations

variable (L : Ledger) (u : Surface)

def stage : Ledger :=
  { L with
    shelf := Function.update L.shelf u ((L.shelf u).push (L.current u) (L.issued u))
    current := Function.update L.current u (L.current u + 1)
    issued := Function.update L.issued u (L.issued u + 1)
    pending := Function.update L.pending u
      { (L.pending u).insert u (L.current u) with commits := (L.pending u).commits ++ [(u, L.issued u)] } }

def fuse (child p : Surface) : Ledger :=
  { L with
    pending := Function.update (Function.update L.pending child {}) p
      ((L.pending p).absorb L.alive (L.pending child)) }

def bump : Ledger := { L with current := Function.update L.current u (L.current u + 1) }

variable (s : Surface)

def enqueue : Ledger :=
  { L with pending := Function.update L.pending s {}, queue := L.queue ++ [L.pending s] }

def settle : Ledger :=
  { L with
    shelf := Function.update L.shelf s ((L.shelf s).drain (L.issued s))
    issued := Function.update L.issued s (L.issued s + 1) }

def sweep : Ledger :=
  { L with
    queue := (takeReady L.alive L.signaled [] L.queue).kept
    work := (takeReady L.alive L.signaled [] L.queue).ready.flatMap (·.surfaces) ++ L.work
    retired := L.retired ++ (takeReady L.alive L.signaled [] L.queue).ready
    cancelled := L.cancelled ++ (takeReady L.alive L.signaled [] L.queue).cancelled }

def skip : Ledger := { L with work := L.work.tail }

def applyTo (k : Nat) : Ledger :=
  { L with shelf := Function.update L.shelf u ((L.shelf u).apply k), work := L.work.tail }

def block (p : Surface) (b : Barrier) : Ledger :=
  { L with pending := Function.update L.pending p { L.pending p with blockers := (L.pending p).blockers ++ [b] } }

def signal (b : Barrier) : Ledger := { L with signaled := Function.update L.signaled b true }

def birth : Ledger := { L with alive := Function.update L.alive s true }

def death : Ledger := { L with alive := Function.update L.alive s false }

end Operations

section Predicates

variable (L : Ledger)

def Released (X : Transaction) : Prop := ∀ b ∈ X.blockers, L.signaled b = true

/-- The transaction may still come to hold back the commits in it: it may be extended, or it has a
blocker that is not released. -/
def Open (p : Surface) : Prop := L.alive p = true ∨ ¬ L.Released (L.pending p)

variable (u : Surface)

/-- Commit `n` of `u` is cached under an id up to `k`. -/
def Waits (k n : Nat) : Prop := ∃ entry ∈ (L.shelf u).waiting, entry.1 ≤ k ∧ n ∈ entry.2

def Merged (n : Nat) : Prop := n ∈ (L.shelf u).merged

/-- No transaction that may still hold it back has the commit. -/
def Free (n : Nat) : Prop := ∀ p, L.Open p → (u, n) ∉ (L.pending p).commits

variable (s : Surface)

/-- The transaction of `s` can be finalized: the surfaces it names are named by no other open one. -/
def Apart : Prop :=
  ∀ p, p ≠ s → L.Open p → ∀ u, L.alive u = true → (L.pending s).Names u → ¬ (L.pending p).Names u

/-- What waits for `s` may be merged at once. -/
def Clear : Prop :=
  (∀ p, L.Open p → ¬ (L.pending p).Names s) ∧ ∀ X ∈ L.queue, X.Names s → L.Released X

end Predicates

/-- The steps of the ledger. A transaction is finalized, and a cache drained, only when no other
transaction holds back what is in it. -/
inductive Step : Ledger → Ledger → Prop where
  | stage {L : Ledger} (u : Surface) : L.alive u = true → Step L (L.stage u)
  | fuse {L : Ledger} (child p : Surface) : child ≠ p → L.alive child = true → L.alive p = true →
      Step L (L.fuse child p)
  | bump {L : Ledger} (u : Surface) : Step L (L.bump u)
  | enqueue {L : Ledger} (s : Surface) : L.alive s = true → L.Apart s → Step L (L.enqueue s)
  | settle {L : Ledger} (s : Surface) : L.alive s = true → L.Clear s → Step L (L.settle s)
  | sweep {L : Ledger} : Step L L.sweep
  | skip {L : Ledger} : Step L L.skip
  | apply {L : Ledger} (u : Surface) (k : Nat) : (u, k) ∈ L.work → L.alive u = true → Step L (L.applyTo u k)
  | block {L : Ledger} (p : Surface) (b : Barrier) : L.alive p = true → Step L (L.block p b)
  | signal {L : Ledger} (b : Barrier) : Step L (L.signal b)
  | birth {L : Ledger} (s : Surface) : L.current s = 0 → L.issued s = 0 → L.pending s = {} → Step L (L.birth s)
  | death {L : Ledger} (s : Surface) : Step L (L.death s)

/-- The commits on a shelf are those issued, in order and each once. -/
structure ShelfOk (shelf : Shelf) (current issued : Nat) : Prop where
  fresh : ∀ entry ∈ shelf.waiting, entry.1 < current
  fifo : shelf.merged ++ shelf.waiting.flatMap (·.2) = List.range issued

structure Sound (L : Ledger) : Prop where
  shelf : ∀ u, ShelfOk (L.shelf u) (L.current u) (L.issued u)
  pendingBound : ∀ p u k, (u, k) ∈ (L.pending p).surfaces → k < L.current u
  queueBound : ∀ X ∈ L.queue, ∀ u k, (u, k) ∈ X.surfaces → k < L.current u
  pendingIssued : ∀ p u n, (u, n) ∈ (L.pending p).commits → n < L.issued u
  queueIssued : ∀ X ∈ L.queue, ∀ u n, (u, n) ∈ X.commits → n < L.issued u
  cancelledIssued : ∀ X ∈ L.cancelled, ∀ u n, (u, n) ∈ X.commits → n < L.issued u
  workBound : ∀ u k, (u, k) ∈ L.work → k < L.current u
  pendingNamed : ∀ p u n, (u, n) ∈ (L.pending p).commits → L.alive u = true → (L.pending p).Names u
  queueNamed : ∀ X ∈ L.queue, ∀ u n, (u, n) ∈ X.commits → L.alive u = true → X.Names u
  order : L.queue.Pairwise fun X Y =>
    ∀ u k n, (u, k) ∈ X.surfaces → L.alive u = true → L.Waits u k n → (u, n) ∉ Y.commits
  queueFree : ∀ X ∈ L.queue, ∀ u k n, (u, k) ∈ X.surfaces → L.alive u = true → L.Waits u k n → L.Free u n
  workFree : ∀ u k n, (u, k) ∈ L.work → L.alive u = true → L.Waits u k n → L.Free u n
  workFirst : ∀ u k n, (u, k) ∈ L.work → L.alive u = true → L.Waits u k n → ∀ X ∈ L.queue, (u, n) ∉ X.commits
  cancelledDone : ∀ X ∈ L.cancelled, ∀ u k n, (u, n) ∈ X.commits → L.alive u = true → ¬ L.Waits u k n
  retiredReleased : ∀ X ∈ L.retired, L.Released X
  mergedFree : ∀ u n, L.Merged u n → L.Free u n
  mergedQueue : ∀ u n, L.Merged u n → ∀ X ∈ L.queue, (u, n) ∈ X.commits → L.Released X
  mergedCancelled : ∀ u n, L.Merged u n → ∀ X ∈ L.cancelled, (u, n) ∈ X.commits → L.Released X

section Shelves

variable {shelf : Shelf} {current issued : Nat}

section

variable (h : ShelfOk shelf current issued)
include h

theorem ShelfOk.lt_of_waiting {entry : Nat × List Nat} {n : Nat}
    (he : entry ∈ shelf.waiting) (hn : n ∈ entry.2) : n < issued := by
  rw [← mem_range, ← h.fifo]
  grind

theorem ShelfOk.lt_of_merged {n : Nat} (hn : n ∈ shelf.merged) : n < issued := by
  rw [← mem_range, ← h.fifo]
  exact mem_append_left _ hn

theorem ShelfOk.mono {current' : Nat} (hle : current ≤ current') :
    ShelfOk shelf current' issued where
  fresh entry he := (h.fresh entry he).trans_le hle
  fifo := h.fifo

theorem ShelfOk.push :
    ShelfOk (shelf.push current issued) (current + 1) (issued + 1) where
  fresh entry he := by
    obtain hold | hnew := mem_append.mp he
    · exact (h.fresh entry hold).trans (Nat.lt_succ_self _)
    grind
  fifo := by
    rw [Shelf.push, flatMap_append, ← append_assoc, h.fifo, range_succ]
    rfl

theorem ShelfOk.drain :
    ShelfOk (shelf.drain issued) current (issued + 1) where
  fresh entry he := by cases he
  fifo := by
    rw [Shelf.drain, h.fifo, range_succ]
    simp

theorem ShelfOk.apply (k : Nat) : ShelfOk (shelf.apply k) current issued where
  fresh entry he := h.fresh entry ((dropWhile_sublist _).mem he)
  fifo := by
    rw [Shelf.apply, append_assoc, ← flatMap_append, takeWhile_append_dropWhile, h.fifo]

theorem ShelfOk.merged_of_le {m n : Nat} (hn : n ∈ shelf.merged) (hle : m ≤ n) : m ∈ shelf.merged := by
  have hfirsts : shelf.merged <+: range issued := ⟨_, h.fifo⟩
  grind [prefix_iff_eq_take]

end

end Shelves

variable {L : Ledger} {u v s p : Surface} {k n : Nat}

theorem Sound.waits_lt (h : Sound L) (hw : L.Waits u k n) : n < L.issued u := by
  obtain ⟨entry, he, -, hn⟩ := hw
  exact (h.shelf u).lt_of_waiting he hn

theorem Open.of_alive (h : L.alive p = true) : L.Open p := .inl h

theorem released_of_not_open (h : ¬ L.Open p) : L.Released (L.pending p) := by
  by_contra hnot
  exact h (.inr hnot)

section Stage

theorem waits_stage (h : (L.stage u).Waits v k n) : L.Waits v k n ∨ v = u ∧ L.current u ≤ k ∧ n = L.issued u := by
  obtain ⟨entry, he, hle, hn⟩ := h
  by_cases hv : v = u
  · subst hv
    rw [stage] at he
    simp only [Function.update_self] at he
    obtain hold | hnew := mem_append.mp he
    · exact .inl ⟨entry, hold, hle, hn⟩
    grind
  · rw [stage] at he
    simp only [Function.update_of_ne hv] at he
    exact .inl ⟨entry, he, hle, hn⟩

theorem merged_stage : (L.stage u).Merged v n ↔ L.Merged v n := by
  by_cases hv : v = u
  · subst hv
    simp [Merged, stage, Shelf.push]
  · simp [Merged, stage, hv]

theorem open_stage : (L.stage u).Open p ↔ L.Open p := by
  by_cases hp : p = u
  · subst hp
    simp [Open, Released, stage, TransactionState.insert]
  · simp [Open, Released, stage, hp]

theorem names_stage (h : ((L.stage u).pending u).Names v) : v = u ∨ (L.pending u).Names v := by
  obtain ⟨k, hk⟩ := h
  simp only [stage, Function.update_self] at hk
  obtain hold | hnew := TransactionState.mem_insertLoop hk
  · exact .inr ⟨k, hold⟩
  · exact .inl (Prod.mk.inj hnew).1

theorem mem_commits_stage (h : (v, n) ∈ ((L.stage u).pending p).commits) :
    (v, n) ∈ (L.pending p).commits ∨ v = u ∧ n = L.issued u := by
  by_cases hp : p = u
  · subst hp
    simpa [stage] using h
  · simp only [stage, Function.update_of_ne hp] at h
    exact .inl h

theorem free_stage (hn : n < L.issued v) (hfree : L.Free v n) : (L.stage u).Free v n := by
  intro p hp hmem
  obtain hold | ⟨rfl, rfl⟩ := mem_commits_stage hmem
  · exact hfree p (open_stage.mp hp) hold
  · exact Nat.lt_irrefl _ hn

theorem current_le_stage (v : Surface) : L.current v ≤ (L.stage u).current v := by
  by_cases hv : v = u
  · simp [stage, hv]
  · simp [stage, hv]

theorem issued_le_stage (v : Surface) : L.issued v ≤ (L.stage u).issued v := by
  by_cases hv : v = u
  · simp [stage, hv]
  · simp [stage, hv]

theorem waits_of_stage (hk : k < L.current v) (hw : (L.stage u).Waits v k n) : L.Waits v k n := by
  obtain hold | ⟨rfl, hle, -⟩ := waits_stage hw
  · exact hold
  · omega

theorem Sound.stage (h : Sound L) (halive : L.alive u = true) : Sound (L.stage u) where
  shelf v := by
    by_cases hv : v = u
    · subst hv
      simpa [Ledger.stage] using (h.shelf v).push
    · simpa [Ledger.stage, hv] using h.shelf v
  pendingBound p v k hmem := by
    by_cases hp : p = u
    · subst hp
      simp only [Ledger.stage, Function.update_self] at hmem
      obtain hold | hnew := TransactionState.mem_insertLoop hmem
      · exact (h.pendingBound p v k hold).trans_le (current_le_stage v)
      · obtain ⟨rfl, rfl⟩ := Prod.mk.inj hnew
        simp [Ledger.stage]
    · simp only [Ledger.stage, Function.update_of_ne hp] at hmem
      exact (h.pendingBound p v k hmem).trans_le (current_le_stage v)
  queueBound X hX v k hmem := (h.queueBound X hX v k hmem).trans_le (current_le_stage v)
  pendingIssued p v n hmem := by
    obtain hold | ⟨rfl, rfl⟩ := mem_commits_stage hmem
    · exact (h.pendingIssued p v n hold).trans_le (issued_le_stage v)
    · simp [Ledger.stage]
  queueIssued X hX v n hmem := (h.queueIssued X hX v n hmem).trans_le (issued_le_stage v)
  cancelledIssued X hX v n hmem := (h.cancelledIssued X hX v n hmem).trans_le (issued_le_stage v)
  workBound v k hmem := (h.workBound v k hmem).trans_le (current_le_stage v)
  pendingNamed p v n hmem hv := by
    by_cases hp : p = u
    · subst hp
      obtain hold | ⟨rfl, rfl⟩ := mem_commits_stage hmem
      · simp only [Ledger.stage, Function.update_self]
        exact TransactionState.names_insertLoop (h.pendingNamed p v n hold hv)
      · simp only [Ledger.stage, Function.update_self]
        exact TransactionState.names_insertLoop_self
    · simp only [Ledger.stage, Function.update_of_ne hp] at hmem ⊢
      exact h.pendingNamed p v n hmem hv
  queueNamed := h.queueNamed
  order := by
    refine h.order.imp_of_mem fun {X Y} hX hY hXY v k n hmem hv hw => ?_
    exact hXY v k n hmem hv (waits_of_stage (h.queueBound X hX v k hmem) hw)
  queueFree X hX v k n hmem hv hw := by
    have hold := waits_of_stage (h.queueBound X hX v k hmem) hw
    exact free_stage (h.waits_lt hold) (h.queueFree X hX v k n hmem hv hold)
  workFree v k n hmem hv hw := by
    have hold := waits_of_stage (h.workBound v k hmem) hw
    exact free_stage (h.waits_lt hold) (h.workFree v k n hmem hv hold)
  workFirst v k n hmem hv hw := h.workFirst v k n hmem hv (waits_of_stage (h.workBound v k hmem) hw)
  cancelledDone X hX v k n hmem hv hw := by
    obtain hold | ⟨rfl, -, rfl⟩ := waits_stage hw
    · exact h.cancelledDone X hX v k n hmem hv hold
    · exact Nat.lt_irrefl _ (h.cancelledIssued X hX _ _ hmem)
  retiredReleased := h.retiredReleased
  mergedFree v n hm := by
    rw [merged_stage] at hm
    exact free_stage ((h.shelf v).lt_of_merged hm) (h.mergedFree v n hm)
  mergedQueue v n hm := h.mergedQueue v n (merged_stage.mp hm)
  mergedCancelled v n hm := h.mergedCancelled v n (merged_stage.mp hm)

end Stage

section Fuse

variable {child : Surface}

theorem mem_commits_fuse (h : (v, n) ∈ ((L.fuse child p).pending s).commits) :
    (v, n) ∈ (L.pending s).commits ∨ s = p ∧ (v, n) ∈ (L.pending child).commits := by
  by_cases hp : s = p
  · subst hp
    simpa [fuse, TransactionState.absorb] using h
  · by_cases hc : s = child
    · subst hc
      simp [fuse, hp] at h
    · simp only [fuse, Function.update_of_ne hp, Function.update_of_ne hc] at h
      exact .inl h

theorem open_fuse (hchild : L.alive child = true) (hp : L.alive p = true) (h : (L.fuse child p).Open s) : L.Open s := by
  by_cases hsp : s = p
  · exact hsp ▸ .of_alive hp
  · by_cases hsc : s = child
    · exact hsc ▸ .of_alive hchild
    · simpa [Open, Released, fuse, hsp, hsc] using h

theorem free_fuse (hchild : L.alive child = true) (hp : L.alive p = true) (hfree : L.Free v n) :
    (L.fuse child p).Free v n := by
  intro s hs hmem
  obtain hold | ⟨rfl, hold⟩ := mem_commits_fuse hmem
  · exact hfree s (open_fuse hchild hp hs) hold
  · exact hfree child (.of_alive hchild) hold

theorem Sound.fuse (h : Sound L) (hchild : L.alive child = true) (hp : L.alive p = true) : Sound (L.fuse child p) :=
  { h with
    pendingBound := by
      intro s v k hmem
      by_cases hsp : s = p
      · subst hsp
        simp only [Ledger.fuse, Function.update_self] at hmem
        obtain hold | ⟨hold, -⟩ := TransactionState.mem_takeOver hmem
        · exact h.pendingBound s v k hold
        · exact h.pendingBound child v k hold
      · by_cases hsc : s = child
        · subst hsc
          simp [Ledger.fuse, hsp] at hmem
        · simp only [Ledger.fuse, Function.update_of_ne hsp, Function.update_of_ne hsc] at hmem
          exact h.pendingBound s v k hmem
    pendingIssued := by
      intro s v n hmem
      obtain hold | ⟨-, hold⟩ := mem_commits_fuse hmem
      · exact h.pendingIssued s v n hold
      · exact h.pendingIssued child v n hold
    pendingNamed := by
      intro s v n hmem hv
      by_cases hsp : s = p
      · subst hsp
        have hcases := mem_commits_fuse hmem
        simp only [Ledger.fuse, Function.update_self]
        obtain hold | ⟨-, hold⟩ := hcases
        · exact TransactionState.names_takeOver_left (h.pendingNamed s v n hold hv)
        · exact TransactionState.names_takeOver_right hv (h.pendingNamed child v n hold hv)
      · by_cases hsc : s = child
        · subst hsc
          simp [Ledger.fuse, hsp] at hmem
        · simp only [Ledger.fuse, Function.update_of_ne hsp, Function.update_of_ne hsc] at hmem ⊢
          exact h.pendingNamed s v n hmem hv
    queueFree := fun X hX v k n hmem hv hw => free_fuse hchild hp (h.queueFree X hX v k n hmem hv hw)
    workFree := fun v k n hmem hv hw => free_fuse hchild hp (h.workFree v k n hmem hv hw)
    mergedFree := fun v n hm => free_fuse hchild hp (h.mergedFree v n hm) }

end Fuse

theorem current_le_bump (v : Surface) : L.current v ≤ (L.bump u).current v := by
  by_cases hv : v = u
  · simp [bump, hv]
  · simp [bump, hv]

theorem Sound.bump (h : Sound L) (u : Surface) : Sound (L.bump u) :=
  { h with
    shelf := fun v => (h.shelf v).mono (current_le_bump v)
    pendingBound := fun p v k hmem => (h.pendingBound p v k hmem).trans_le (current_le_bump v)
    queueBound := fun X hX v k hmem => (h.queueBound X hX v k hmem).trans_le (current_le_bump v)
    workBound := fun v k hmem => (h.workBound v k hmem).trans_le (current_le_bump v) }

section Enqueue

theorem open_enqueue (hs : L.alive s = true) (h : (L.enqueue s).Open p) : L.Open p := by
  by_cases hp : p = s
  · exact hp ▸ .of_alive hs
  · simpa [Open, Released, enqueue, hp] using h

theorem mem_commits_enqueue (h : (v, n) ∈ ((L.enqueue s).pending p).commits) :
    p ≠ s ∧ (v, n) ∈ (L.pending p).commits := by
  by_cases hp : p = s
  · subst hp
    simp [enqueue] at h
  · simp only [enqueue, Function.update_of_ne hp] at h
    exact ⟨hp, h⟩

theorem mem_queue_enqueue {X : Transaction} (h : X ∈ (L.enqueue s).queue) : X ∈ L.queue ∨ X = L.pending s := by
  simpa [enqueue] using h

theorem free_enqueue (hs : L.alive s = true) (hfree : L.Free v n) : (L.enqueue s).Free v n := fun p hp hmem =>
  hfree p (open_enqueue hs hp) (mem_commits_enqueue hmem).2

theorem Sound.enqueue (h : Sound L) (hs : L.alive s = true) (hapart : L.Apart s) : Sound (L.enqueue s) :=
  { h with
    pendingBound := by
      intro p v k hmem
      by_cases hp : p = s
      · subst hp
        simp [Ledger.enqueue] at hmem
      · simp only [Ledger.enqueue, Function.update_of_ne hp] at hmem
        exact h.pendingBound p v k hmem
    queueBound := by
      intro X hX v k hmem
      obtain hX | rfl := mem_queue_enqueue hX
      · exact h.queueBound X hX v k hmem
      · exact h.pendingBound s v k hmem
    pendingIssued := fun p v n hmem => h.pendingIssued p v n (mem_commits_enqueue hmem).2
    queueIssued := by
      intro X hX v n hmem
      obtain hX | rfl := mem_queue_enqueue hX
      · exact h.queueIssued X hX v n hmem
      · exact h.pendingIssued s v n hmem
    pendingNamed := by
      intro p v n hmem hv
      obtain ⟨hp, hold⟩ := mem_commits_enqueue hmem
      simp only [Ledger.enqueue, Function.update_of_ne hp]
      exact h.pendingNamed p v n hold hv
    queueNamed := by
      intro X hX v n hmem hv
      obtain hX | rfl := mem_queue_enqueue hX
      · exact h.queueNamed X hX v n hmem hv
      · exact h.pendingNamed s v n hmem hv
    order := by
      refine pairwise_append.mpr ⟨h.order, pairwise_singleton _ _, fun X hX Y hY v k n hmem hv hw => ?_⟩
      rw [mem_singleton.mp hY]
      exact h.queueFree X hX v k n hmem hv hw s (.of_alive hs)
    queueFree := by
      intro X hX v k n hmem hv hw
      obtain hX | rfl := mem_queue_enqueue hX
      · exact free_enqueue hs (h.queueFree X hX v k n hmem hv hw)
      · intro p hp hcommit
        obtain ⟨hne, hold⟩ := mem_commits_enqueue hcommit
        exact hapart p hne (open_enqueue hs hp) v hv ⟨k, hmem⟩ (h.pendingNamed p v n hold hv)
    workFree := fun v k n hmem hv hw => free_enqueue hs (h.workFree v k n hmem hv hw)
    workFirst := by
      intro v k n hmem hv hw X hX
      obtain hX | rfl := mem_queue_enqueue hX
      · exact h.workFirst v k n hmem hv hw X hX
      · exact h.workFree v k n hmem hv hw s (.of_alive hs)
    mergedFree := fun v n hm => free_enqueue hs (h.mergedFree v n hm)
    mergedQueue := by
      intro v n hm X hX hmem
      obtain hX | rfl := mem_queue_enqueue hX
      · exact h.mergedQueue v n hm X hX hmem
      · exact absurd hmem (h.mergedFree v n hm s (.of_alive hs)) }

end Enqueue

section Merging

theorem waits_settle (h : (L.settle s).Waits v k n) : L.Waits v k n := by
  obtain ⟨entry, he, hle, hn⟩ := h
  by_cases hv : v = s
  · subst hv
    simp [settle, Shelf.drain] at he
  · simp only [settle, Function.update_of_ne hv] at he
    exact ⟨entry, he, hle, hn⟩

theorem merged_settle (h : (L.settle s).Merged v n) :
    L.Merged v n ∨ v = s ∧ ((∃ k, L.Waits s k n) ∨ n = L.issued s) := by
  by_cases hv : v = s
  · subst hv
    simp only [Merged, settle, Function.update_self, Shelf.drain, mem_append, mem_flatMap, mem_singleton] at h
    obtain (hold | ⟨entry, he, hn⟩) | hnew := h
    · exact .inl hold
    · exact .inr ⟨rfl, .inl ⟨entry.1, entry, he, le_rfl, hn⟩⟩
    · exact .inr ⟨rfl, .inr hnew⟩
  · simp only [Merged, settle, Function.update_of_ne hv] at h
    exact .inl h

theorem issued_le_settle (v : Surface) : L.issued v ≤ (L.settle s).issued v := by
  by_cases hv : v = s
  · simp [settle, hv]
  · simp [settle, hv]

theorem Sound.settle (h : Sound L) (hs : L.alive s = true) (hclear : L.Clear s) : Sound (L.settle s) :=
  { h with
    shelf := by
      intro v
      by_cases hv : v = s
      · subst hv
        simpa [Ledger.settle] using (h.shelf v).drain
      · simpa [Ledger.settle, hv] using h.shelf v
    pendingIssued := fun p v n hmem => (h.pendingIssued p v n hmem).trans_le (issued_le_settle v)
    queueIssued := fun X hX v n hmem => (h.queueIssued X hX v n hmem).trans_le (issued_le_settle v)
    cancelledIssued := fun X hX v n hmem => (h.cancelledIssued X hX v n hmem).trans_le (issued_le_settle v)
    order := h.order.imp fun hXY v k n hmem hv hw => hXY v k n hmem hv (waits_settle hw)
    queueFree := fun X hX v k n hmem hv hw => h.queueFree X hX v k n hmem hv (waits_settle hw)
    workFree := fun v k n hmem hv hw => h.workFree v k n hmem hv (waits_settle hw)
    workFirst := fun v k n hmem hv hw => h.workFirst v k n hmem hv (waits_settle hw)
    cancelledDone := fun X hX v k n hmem hv hw => h.cancelledDone X hX v k n hmem hv (waits_settle hw)
    mergedFree := by
      intro v n hm p hp hmem
      obtain hold | ⟨rfl, -⟩ := merged_settle hm
      · exact h.mergedFree v n hold p hp hmem
      · exact hclear.1 p hp (h.pendingNamed p v n hmem hs)
    mergedQueue := by
      intro v n hm X hX hmem
      obtain hold | ⟨rfl, -⟩ := merged_settle hm
      · exact h.mergedQueue v n hold X hX hmem
      · exact hclear.2 X hX (h.queueNamed X hX v n hmem hs)
    mergedCancelled := by
      intro v n hm X hX hmem
      obtain hold | ⟨rfl, ⟨k, hw⟩ | rfl⟩ := merged_settle hm
      · exact h.mergedCancelled v n hold X hX hmem
      · exact absurd hw (h.cancelledDone X hX v k n hmem hs)
      · exact absurd (h.cancelledIssued X hX _ _ hmem) (Nat.lt_irrefl _) }

theorem waits_applyTo {j : Nat} (h : (L.applyTo u k).Waits v j n) : L.Waits v j n := by
  obtain ⟨entry, he, hle, hn⟩ := h
  by_cases hv : v = u
  · subst hv
    simp only [applyTo, Function.update_self] at he
    exact ⟨entry, (dropWhile_sublist _).mem he, hle, hn⟩
  · simp only [applyTo, Function.update_of_ne hv] at he
    exact ⟨entry, he, hle, hn⟩

theorem merged_applyTo (h : (L.applyTo u k).Merged v n) : L.Merged v n ∨ v = u ∧ L.Waits u k n := by
  by_cases hv : v = u
  · subst hv
    simp only [Merged, applyTo, Function.update_self, Shelf.apply, mem_append, mem_flatMap] at h
    obtain hold | ⟨entry, he, hn⟩ := h
    · exact .inl hold
    · have hle : entry.1 ≤ k := by simpa using mem_takeWhile_imp he
      exact .inr ⟨rfl, entry, (takeWhile_sublist _).mem he, hle, hn⟩
  · simp only [Merged, applyTo, Function.update_of_ne hv] at h
    exact .inl h

theorem Sound.skip (h : Sound L) : Sound L.skip :=
  { h with
    workBound := fun v k hmem => h.workBound v k (mem_of_mem_tail hmem)
    workFree := fun v k n hmem => h.workFree v k n (mem_of_mem_tail hmem)
    workFirst := fun v k n hmem => h.workFirst v k n (mem_of_mem_tail hmem) }

theorem Sound.applyTo (h : Sound L) (hwork : (u, k) ∈ L.work) (hu : L.alive u = true) : Sound (L.applyTo u k) :=
  { h.skip with
    shelf := by
      intro v
      by_cases hv : v = u
      · subst hv
        simpa [Ledger.applyTo] using (h.shelf v).apply k
      · simpa [Ledger.applyTo, hv] using h.shelf v
    order := h.order.imp fun hXY v j n hmem hv hw => hXY v j n hmem hv (waits_applyTo hw)
    queueFree := fun X hX v j n hmem hv hw => h.queueFree X hX v j n hmem hv (waits_applyTo hw)
    workFree := fun v j n hmem hv hw => h.skip.workFree v j n hmem hv (waits_applyTo hw)
    workFirst := fun v j n hmem hv hw => h.skip.workFirst v j n hmem hv (waits_applyTo hw)
    cancelledDone := fun X hX v j n hmem hv hw => h.cancelledDone X hX v j n hmem hv (waits_applyTo hw)
    mergedFree := by
      intro v n hm
      obtain hold | ⟨rfl, hw⟩ := merged_applyTo hm
      · exact h.mergedFree v n hold
      · exact h.workFree v k n hwork hu hw
    mergedQueue := by
      intro v n hm X hX hmem
      obtain hold | ⟨rfl, hw⟩ := merged_applyTo hm
      · exact h.mergedQueue v n hold X hX hmem
      · exact absurd hmem (h.workFirst v k n hwork hu hw X hX)
    mergedCancelled := by
      intro v n hm X hX hmem
      obtain hold | ⟨rfl, hw⟩ := merged_applyTo hm
      · exact h.mergedCancelled v n hold X hX hmem
      · exact absurd hw (h.cancelledDone X hX v k n hmem hu) }

end Merging

theorem Sound.sweep (h : Sound L) : Sound L.sweep :=
  { h with
    queueBound := fun X hX => h.queueBound X (kept_sublist.mem hX)
    queueIssued := fun X hX => h.queueIssued X (kept_sublist.mem hX)
    cancelledIssued := by
      intro X hX v n hmem
      obtain hX | hX := mem_append.mp hX
      · exact h.cancelledIssued X hX v n hmem
      · exact h.queueIssued X (mem_cancelled hX).1 v n hmem
    workBound := by
      intro v k hmem
      obtain hnew | hold := mem_append.mp hmem
      · obtain ⟨X, hX, hmem⟩ := mem_flatMap.mp hnew
        exact h.queueBound X (mem_ready hX).1 v k hmem
      · exact h.workBound v k hold
    queueNamed := fun X hX => h.queueNamed X (kept_sublist.mem hX)
    order := h.order.sublist kept_sublist
    queueFree := fun X hX => h.queueFree X (kept_sublist.mem hX)
    workFree := by
      intro v k n hmem hv hw
      obtain hnew | hold := mem_append.mp hmem
      · obtain ⟨X, hX, hmem⟩ := mem_flatMap.mp hnew
        exact h.queueFree X (mem_ready hX).1 v k n hmem hv hw
      · exact h.workFree v k n hold hv hw
    workFirst := by
      intro v k n hmem hv hw Y hY hcommit
      obtain hnew | hold := mem_append.mp hmem
      · -- both name the surface, so the transaction that stays is the later one
        obtain ⟨X, hX, hmem⟩ := mem_flatMap.mp hnew
        have hYv := h.queueNamed Y (kept_sublist.mem hY) v n hcommit hv
        exact ready_before_kept h.order hX hY hv ⟨k, hmem⟩ hYv v k n hmem hv hw hcommit
      · exact h.workFirst v k n hold hv hw Y (kept_sublist.mem hY) hcommit
    cancelledDone := by
      intro X hX v k n hmem hv
      obtain hX | hX := mem_append.mp hX
      · exact h.cancelledDone X hX v k n hmem hv
      · obtain ⟨hqueue, hstate⟩ := mem_cancelled hX
        have hdead := dead_of_cancelled hstate (h.queueNamed X hqueue v n hmem hv)
        exact absurd (hdead.symm.trans hv) (by decide)
    retiredReleased := by
      intro X hX
      obtain hX | hX := mem_append.mp hX
      · exact h.retiredReleased X hX
      · exact released_of_state (mem_ready hX).2.1
    mergedQueue := fun v n hm X hX => h.mergedQueue v n hm X (kept_sublist.mem hX)
    mergedCancelled := by
      intro v n hm X hX hmem
      obtain hX | hX := mem_append.mp hX
      · exact h.mergedCancelled v n hm X hX hmem
      · exact h.mergedQueue v n hm X (mem_cancelled hX).1 hmem }

section Surroundings

variable {b : Barrier}

theorem pending_block (q : Surface) : ((L.block p b).pending q).surfaces = (L.pending q).surfaces ∧
      ((L.block p b).pending q).commits = (L.pending q).commits := by
  by_cases hq : q = p
  · subst hq
    simp [block]
  · simp [block, hq]

theorem free_block (hp : L.alive p = true) (hfree : L.Free v n) : (L.block p b).Free v n := by
  intro q hq
  rw [(pending_block q).2]
  apply hfree
  by_cases hqp : q = p
  · exact hqp ▸ .of_alive hp
  · simpa [Open, Released, block, hqp] using hq

theorem Sound.block (h : Sound L) (hp : L.alive p = true) (b : Barrier) : Sound (L.block p b) :=
  { h with
    pendingBound := by
      intro q v k hmem
      rw [(pending_block q).1] at hmem
      exact h.pendingBound q v k hmem
    pendingIssued := by
      intro q v n hmem
      rw [(pending_block q).2] at hmem
      exact h.pendingIssued q v n hmem
    pendingNamed := by
      intro q v n hmem hv
      rw [(pending_block q).2] at hmem
      rw [TransactionState.Names, (pending_block q).1]
      exact h.pendingNamed q v n hmem hv
    queueFree := fun X hX v k n hmem hv hw => free_block hp (h.queueFree X hX v k n hmem hv hw)
    workFree := fun v k n hmem hv hw => free_block hp (h.workFree v k n hmem hv hw)
    mergedFree := fun v n hm => free_block hp (h.mergedFree v n hm) }

theorem Released.signal {X : Transaction} (h : L.Released X) (b : Barrier) : (L.signal b).Released X := by
  intro b' hb'
  by_cases heq : b' = b
  · simp [Ledger.signal, heq]
  · simpa [Ledger.signal, heq] using h b' hb'

theorem open_signal (h : (L.signal b).Open p) : L.Open p := h.imp_right fun hnot hrel => hnot (hrel.signal b)

theorem Sound.signal (h : Sound L) (b : Barrier) : Sound (L.signal b) :=
  { h with
    queueFree := fun X hX v k n hmem hv hw p hp => h.queueFree X hX v k n hmem hv hw p (open_signal hp)
    workFree := fun v k n hmem hv hw p hp => h.workFree v k n hmem hv hw p (open_signal hp)
    retiredReleased := fun X hX => (h.retiredReleased X hX).signal b
    mergedFree := fun v n hm p hp => h.mergedFree v n hm p (open_signal hp)
    mergedQueue := fun v n hm X hX hmem => (h.mergedQueue v n hm X hX hmem).signal b
    mergedCancelled := fun v n hm X hX hmem => (h.mergedCancelled v n hm X hX hmem).signal b }

theorem alive_death (h : (L.death s).alive v = true) : L.alive v = true := by
  by_cases hv : v = s
  · simp [death, hv] at h
  · simpa [death, hv] using h

theorem open_death (h : (L.death s).Open p) : L.Open p := h.imp_left alive_death

theorem Sound.death (h : Sound L) (s : Surface) : Sound (L.death s) :=
  { h with
    pendingNamed := fun p v n hmem hv => h.pendingNamed p v n hmem (alive_death hv)
    queueNamed := fun X hX v n hmem hv => h.queueNamed X hX v n hmem (alive_death hv)
    order := h.order.imp fun hXY v k n hmem hv hw => hXY v k n hmem (alive_death hv) hw
    queueFree := fun X hX v k n hmem hv hw p hp => h.queueFree X hX v k n hmem (alive_death hv) hw p (open_death hp)
    workFree := fun v k n hmem hv hw p hp => h.workFree v k n hmem (alive_death hv) hw p (open_death hp)
    workFirst := fun v k n hmem hv hw => h.workFirst v k n hmem (alive_death hv) hw
    cancelledDone := fun X hX v k n hmem hv => h.cancelledDone X hX v k n hmem (alive_death hv)
    mergedFree := fun v n hm p hp => h.mergedFree v n hm p (open_death hp) }

theorem alive_birth (h : (L.birth s).alive v = true) : v = s ∨ L.alive v = true := by
  by_cases hv : v = s
  · exact .inl hv
  · exact .inr (by simpa [birth, hv] using h)

theorem free_birth (hpending : L.pending s = {}) (hfree : L.Free v n) : (L.birth s).Free v n := by
  intro p hp hmem
  by_cases hps : p = s
  · subst hps
    have hnone : (L.birth p).pending p = {} := hpending
    rw [hnone] at hmem
    cases hmem
  · refine hfree p ?_ hmem
    simpa [Open, Released, birth, hps] using hp

/-- Nothing is said yet about a surface that was never alive. -/
theorem Sound.birth (h : Sound L) (hcurrent : L.current s = 0) (hissued : L.issued s = 0)
    (hpending : L.pending s = {}) : Sound (L.birth s) := by
  have hunnamed : ∀ k, ¬ k < L.current s := fun k => by omega
  have hunissued : ∀ n, ¬ n < L.issued s := fun n => by omega
  exact { h with
    pendingNamed := by
      intro p v n hmem hv
      obtain rfl | hv := alive_birth hv
      · exact absurd (h.pendingIssued p v n hmem) (hunissued n)
      · exact h.pendingNamed p v n hmem hv
    queueNamed := by
      intro X hX v n hmem hv
      obtain rfl | hv := alive_birth hv
      · exact absurd (h.queueIssued X hX v n hmem) (hunissued n)
      · exact h.queueNamed X hX v n hmem hv
    order := by
      refine h.order.imp_of_mem fun {X Y} hX hY hXY v k n hmem hv hw => ?_
      obtain rfl | hv := alive_birth hv
      · exact absurd (h.queueBound X hX v k hmem) (hunnamed k)
      · exact hXY v k n hmem hv hw
    queueFree := by
      intro X hX v k n hmem hv hw
      obtain rfl | hv := alive_birth hv
      · exact absurd (h.queueBound X hX v k hmem) (hunnamed k)
      · exact free_birth hpending (h.queueFree X hX v k n hmem hv hw)
    workFree := by
      intro v k n hmem hv hw
      obtain rfl | hv := alive_birth hv
      · exact absurd (h.workBound v k hmem) (hunnamed k)
      · exact free_birth hpending (h.workFree v k n hmem hv hw)
    workFirst := by
      intro v k n hmem hv hw
      obtain rfl | hv := alive_birth hv
      · exact absurd (h.workBound v k hmem) (hunnamed k)
      · exact h.workFirst v k n hmem hv hw
    cancelledDone := by
      intro X hX v k n hmem hv
      obtain rfl | hv := alive_birth hv
      · exact absurd (h.cancelledIssued X hX v n hmem) (hunissued n)
      · exact h.cancelledDone X hX v k n hmem hv
    mergedFree := fun v n hm => free_birth hpending (h.mergedFree v n hm) }

end Surroundings

theorem Step.sound {L' : Ledger} (hstep : Step L L') (h : Sound L) : Sound L' := by
  grind +splitImp +splitIndPred [h.stage, h.fuse, h.bump, h.enqueue, h.settle, h.sweep, h.skip, h.applyTo, h.block, h.signal, h.birth, h.death]

def Known (L : Ledger) (X : Transaction) : Prop :=
  (∃ p, X = L.pending p) ∨ X ∈ L.queue ∨ X ∈ L.retired ∨ X ∈ L.cancelled

theorem Sound.never_early (h : Sound L) {m : Nat} (hn : L.Merged u n) (hle : m ≤ n) {X : Transaction}
    (hX : L.Known X) (hmem : (u, m) ∈ X.commits) : L.Released X := by
  have hm : L.Merged u m := (h.shelf u).merged_of_le hn hle
  obtain ⟨p, rfl⟩ | hX | hX | hX := hX
  · by_cases hp : L.Open p
    · exact absurd hmem (h.mergedFree u m hm p hp)
    · exact released_of_not_open hp
  · exact h.mergedQueue u m hm X hX hmem
  · exact h.retiredReleased X hX
  · exact h.mergedCancelled u m hm X hX hmem

end Ledger

end TensorDE.Wm.Compositor
