import TensorDE.Lib.Sorting
import TensorDE.Renderer.DescriptorHeap
import TensorDE.Renderer.Error

set_option linter.dupNamespace false

namespace TensorDE.Renderer

open Effect Ranges Sorting List

structure DescriptorHeapUploadRange where
  offset : Nat
  size : Nat
deriving DecidableEq

structure BufferCopy where
  srcOffset : Nat
  dstOffset : Nat
  size : Nat
deriving DecidableEq

def BufferCopy.bytes (copy : BufferCopy) : Range := ⟨copy.srcOffset, copy.srcOffset + copy.size⟩

def DescriptorHeapUploadRange.bytes (range : DescriptorHeapUploadRange) : Range :=
  ⟨range.offset, range.offset + range.size⟩

structure DescriptorHeapUploadBatch where
  copies : List BufferCopy
deriving DecidableEq

def validateUploadRanges (applicationCapacity : Nat) : List DescriptorHeapUploadRange → Except Error Unit
  | [] => .ok ()
  | range :: ranges =>
    if range.size = 0 ∨ (checkedAdd range.offset range.size).all fun stop => applicationCapacity < stop then
      .error (.validation "descriptor upload range is empty or exceeds application heap storage")
    else validateUploadRanges applicationCapacity ranges

namespace DescriptorHeapUploadBatch

def saturatingAdd (a b : Nat) : Nat := min (a + b) (2 ^ 64 - 1)

def copyOf (range : DescriptorHeapUploadRange) : BufferCopy := ⟨range.offset, range.offset, range.size⟩

/-- The vector of copies while it is compacted in place: its first `compacted` entries are the result so far. -/
structure Compaction where
  copies : List BufferCopy
  compacted : Nat

namespace Compaction

def store (c : Compaction) (copy : BufferCopy) : Option Compaction :=
  if c.compacted < c.copies.length then some ⟨c.copies.set c.compacted copy, c.compacted + 1⟩ else none

/-- One round of the loop. It is none where an index is out of bounds or the size underflows. -/
def visit (c : Compaction) (index : Nat) : Option Compaction := do
  let copy ← c.copies[index]?
  if 0 < c.compacted then
    let previous ← c.copies[c.compacted - 1]?
    let previousEnd := saturatingAdd previous.srcOffset previous.size
    let copyEnd := saturatingAdd copy.srcOffset copy.size
    if copy.srcOffset ≤ previousEnd then
      if previous.srcOffset ≤ max copyEnd previousEnd then
        let size := max copyEnd previousEnd - previous.srcOffset
        some { c with copies := c.copies.set (c.compacted - 1) { previous with size } }
      else none
    else c.store copy
  else c.store copy

end Compaction

def prepare (sort : UnstableSort BufferCopy.srcOffset) (_batch : DescriptorHeapUploadBatch)
    (ranges : List DescriptorHeapUploadRange) : Option DescriptorHeapUploadBatch := do
  let copies := sort.sort (ranges.map copyOf)
  let c ← (List.range copies.length).foldlM Compaction.visit ⟨copies, 0⟩
  some ⟨c.copies.take c.compacted⟩

section Compact

/-- What a round does with the result so far, away from the vector it lives in. -/
def fold (done : List BufferCopy) (copy : BufferCopy) : List BufferCopy :=
  match done.getLast? with
  | none => [copy]
  | some previous =>
    if copy.srcOffset ≤ saturatingAdd previous.srcOffset previous.size then
      done.dropLast ++ [{ previous with
        size := max (saturatingAdd copy.srcOffset copy.size) (saturatingAdd previous.srcOffset previous.size) -
          previous.srcOffset }]
    else done ++ [copy]

/-- The vector in the middle of the loop: the result so far, the entries it has left behind, and the entries
still to visit. -/
structure Compaction.Shape (c : Compaction) (done left rest : List BufferCopy) : Prop where
  copies : c.copies = done ++ left ++ rest
  compacted : c.compacted = done.length

variable {c : Compaction} {done left rest copies : List BufferCopy} {copy : BufferCopy}

theorem Compaction.Shape.store (h : c.Shape done left (copy :: rest)) :
    ∃ c' left', c.store copy = some c' ∧ c'.Shape (done ++ [copy]) left' rest ∧ left'.length = left.length := by
  have hlt : c.compacted < c.copies.length := by
    rw [h.copies, h.compacted]
    simp only [length_append, length_cons]
    omega
  refine ⟨_, left.tail ++ (if left = [] then [] else [copy]), if_pos hlt, ⟨?_, ?_⟩, ?_⟩
  · cases left with
    | nil => simp [h.copies, h.compacted]
    | cons e left => simp [h.copies, h.compacted]
  · simp [h.compacted]
  · cases left <;> simp

theorem saturatingAdd_le {a b : Nat} (h : a < 2 ^ 64) : a ≤ saturatingAdd a b := by
  rw [saturatingAdd]
  omega

theorem Compaction.Shape.visit (h : c.Shape done left (copy :: rest)) (hdone : ∀ d ∈ done, d.srcOffset < 2 ^ 64) :
    ∃ c' left', c.visit (done.length + left.length) = some c' ∧ c'.Shape (fold done copy) left' rest ∧
      (fold done copy).length + left'.length = done.length + left.length + 1 := by
  have hcopy : c.copies[done.length + left.length]? = some copy := by
    rw [h.copies, getElem?_append_right (by simp)]
    simp
  cases done using reverseRecOn with
  | nil => grind [h.store, Compaction.visit, h.compacted, fold]
  | append_singleton init previous =>
    have hprevious : c.copies[c.compacted - 1]? = some previous := by
      rw [h.copies, h.compacted]
      simp
    have hpos : 0 < c.compacted := by simp [h.compacted]
    have hend : previous.srcOffset ≤ saturatingAdd previous.srcOffset previous.size :=
      saturatingAdd_le (hdone previous (by simp))
    simp only [Compaction.visit, hcopy, hprevious, hpos, Option.bind_eq_bind, Option.bind_some]
    by_cases htouch : copy.srcOffset ≤ saturatingAdd previous.srcOffset previous.size
    · rw [if_pos htouch, if_pos (hend.trans (Nat.le_max_right _ _))]
      refine ⟨_, left ++ [copy], rfl, ⟨?_, ?_⟩, ?_⟩
      · simp [h.copies, h.compacted, fold, htouch]
      · simp [h.compacted, fold, htouch]
      grind [fold]
    grind [h.store, fold]

theorem mem_fold {d : BufferCopy} (h : d ∈ fold done copy) : d.srcOffset ∈ (copy :: done).map BufferCopy.srcOffset := by
  cases done using reverseRecOn with
  | nil =>
    obtain rfl := mem_singleton.mp h
    simp
  | append_singleton init previous => grind [fold]

/-- The loop never fails, and leaves the fold of the copies in the front of the vector. -/
theorem Compaction.Shape.run (h : c.Shape done left rest) (hdone : ∀ d ∈ done, d.srcOffset < 2 ^ 64)
    (hrest : ∀ d ∈ rest, d.srcOffset < 2 ^ 64) :
    ∃ c' left', (List.range' (done.length + left.length) rest.length).foldlM Compaction.visit c = some c' ∧
      c'.Shape (rest.foldl fold done) left' [] := by
  induction rest generalizing c done left with
  | nil => exact ⟨c, left, rfl, h⟩
  | cons copy rest ih =>
    simp only [mem_cons, forall_eq_or_imp] at hrest
    obtain ⟨c', left', hvisit, hshape, hlen⟩ := h.visit hdone
    have hdone' : ∀ d ∈ fold done copy, d.srcOffset < 2 ^ 64 := by
      intro d hd
      obtain ⟨e, he, heq⟩ := mem_map.mp (mem_fold hd)
      rw [← heq]
      obtain rfl | he := mem_cons.mp he
      · exact hrest.1
      · exact hdone e he
    grind [range'_succ]

end Compact

section Merge

variable {merged rest : List Range} {range : Range}

/-- What one round keeps while ranges come in the order of their starts, overlapping or not. -/
structure Merging (merged : List Range) (bound : Nat) : Prop where
  gapped : Gapped merged
  nonempty : ∀ r ∈ merged, r.Nonempty
  starts : ∀ r ∈ merged, r.start ≤ bound

theorem Merging.coalesce (h : Merging merged range.start) (hr : range.Nonempty) :
    Merging (coalesce merged range) range.start ∧
      ∀ x, Held (coalesce merged range) x ↔ Held merged x ∨ range.Holds x := by
  have hlt : range.start < range.stop := hr
  cases merged using reverseRecOn with
  | nil =>
    have hco : Renderer.coalesce [] range = [range] := rfl
    rw [hco]
    exact ⟨⟨pairwise_singleton _ _, by simpa using hr, by simp⟩, by simp⟩
  | append_singleton init previous =>
    have hstart := h.starts previous (by simp)
    obtain ⟨hinit, _, hgap⟩ := pairwise_append.mp h.gapped
    by_cases htouch : range.start ≤ previous.stop
    · have hco : Renderer.coalesce (init ++ [previous]) range =
          init ++ [⟨previous.start, max previous.stop range.stop⟩] := by
        simp [Renderer.coalesce, htouch]
      rw [hco]
      refine ⟨⟨pairwise_append.mpr ⟨hinit, pairwise_singleton _ _, ?_⟩, ?_, ?_⟩, fun x => ?_⟩
      · grind
      · intro r hm
        obtain hm | hm := mem_append.mp hm
        · exact h.nonempty r (by simp [hm])
        · obtain rfl := mem_singleton.mp hm
          change previous.start < max previous.stop range.stop
          omega
      · grind +splitImp +splitIndPred
      grind [held_append, held_singleton, Range.Holds]
    · have hco : Renderer.coalesce (init ++ [previous]) range = (init ++ [previous]) ++ [range] := by
        simp [Renderer.coalesce, htouch]
      rw [hco]
      refine ⟨⟨pairwise_append.mpr ⟨h.gapped, pairwise_singleton _ _, ?_⟩, ?_, ?_⟩, fun x => ?_⟩
      · grind +splitImp +splitIndPred
      · grind [h.nonempty]
      · grind +splitImp +splitIndPred
      · rw [held_append _ [range], held_singleton]

theorem Merging.foldl_coalesce {bound : Nat} (h : Merging merged bound) (hne : ∀ r ∈ rest, r.Nonempty)
    (hbound : ∀ r ∈ rest, bound ≤ r.start) (hsort : rest.Pairwise fun a b => a.start ≤ b.start) :
    Gapped (rest.foldl Renderer.coalesce merged) ∧ (∀ r ∈ rest.foldl Renderer.coalesce merged, r.Nonempty) ∧
      ∀ x, Held (rest.foldl Renderer.coalesce merged) x ↔ Held merged x ∨ Held rest x := by
  induction rest generalizing merged bound with
  | nil => exact ⟨h.gapped, h.nonempty, by simp⟩
  | cons range rest ih =>
    obtain ⟨hlater, hsort⟩ := pairwise_cons.mp hsort
    simp only [mem_cons, forall_eq_or_imp] at hne hbound
    have hm : Merging merged range.start := ⟨h.gapped, h.nonempty, fun r hr => (h.starts r hr).trans hbound.1⟩
    obtain ⟨hm', hheld⟩ := hm.coalesce hne.1
    grind [held_cons]

end Merge

section Bytes

/-- A copy of some bytes onto themselves, all of them below the end of the address space. -/
structure InRange (copy : BufferCopy) : Prop where
  same : copy.dstOffset = copy.srcOffset
  size : 0 < copy.size
  stop : copy.srcOffset + copy.size < 2 ^ 64

variable {done rest : List BufferCopy} {copy : BufferCopy}

theorem InRange.saturatingAdd (h : InRange copy) :
    saturatingAdd copy.srcOffset copy.size = copy.srcOffset + copy.size := by
  have := h.stop
  rw [DescriptorHeapUploadBatch.saturatingAdd]
  omega

/-- A round of the compaction is a round of merging the ranges of bytes. -/
theorem fold_bytes (hdone : ∀ d ∈ done, InRange d) (hcopy : InRange copy) : (∀ d ∈ fold done copy, InRange d) ∧
      (fold done copy).map BufferCopy.bytes = coalesce (done.map BufferCopy.bytes) copy.bytes := by
  cases done using reverseRecOn with
  | nil => exact ⟨by simpa [fold] using hcopy, rfl⟩
  | append_singleton init previous =>
    have hprevious : InRange previous := hdone previous (by simp)
    have hsize := hprevious.size
    have hpstop := hprevious.stop
    have hcstop := hcopy.stop
    by_cases htouch : copy.srcOffset ≤ previous.srcOffset + previous.size
    · have hfold : fold (init ++ [previous]) copy = init ++ [{ previous with
          size := max (copy.srcOffset + copy.size) (previous.srcOffset + previous.size) - previous.srcOffset }] := by
        simp [fold, hprevious.saturatingAdd, hcopy.saturatingAdd, htouch]
      rw [hfold]
      refine ⟨fun d hd => ?_, ?_⟩
      · obtain hd | hd := mem_append.mp hd
        · exact hdone d (by simp [hd])
        · obtain rfl := mem_singleton.mp hd
          refine ⟨hprevious.same, ?_, ?_⟩
          · grind
          grind
      · have hmax : previous.srcOffset +
            (max (copy.srcOffset + copy.size) (previous.srcOffset + previous.size) - previous.srcOffset) =
            max (previous.srcOffset + previous.size) (copy.srcOffset + copy.size) := by
          omega
        simp [coalesce, BufferCopy.bytes, htouch, hmax]
    grind [fold, hprevious.saturatingAdd, coalesce, BufferCopy.bytes]

theorem foldl_fold_bytes (hdone : ∀ d ∈ done, InRange d) (hrest : ∀ d ∈ rest, InRange d) :
    (∀ d ∈ rest.foldl fold done, InRange d) ∧ (rest.foldl fold done).map BufferCopy.bytes =
      (rest.map BufferCopy.bytes).foldl coalesce (done.map BufferCopy.bytes) := by
  induction rest generalizing done with
  | nil => exact ⟨hdone, rfl⟩
  | cons copy rest ih =>
    simp only [mem_cons, forall_eq_or_imp] at hrest
    obtain ⟨hfold, hbytes⟩ := fold_bytes hdone hrest.1
    grind

theorem validateUploadRanges_inRange {applicationCapacity : Nat} {ranges : List DescriptorHeapUploadRange}
    (h : validateUploadRanges applicationCapacity ranges = .ok ()) : ∀ range ∈ ranges, InRange (copyOf range) := by
  induction ranges with
  | nil => simp
  | cons range ranges ih =>
    rw [validateUploadRanges] at h
    split at h
    · cases h
    · rename_i hvalid
      simp only [not_or, checkedAdd] at hvalid
      obtain ⟨hsize, hstop⟩ := hvalid
      refine forall_mem_cons.mpr ⟨⟨rfl, Nat.pos_of_ne_zero hsize, ?_⟩, ih h⟩
      by_contra hge
      change ¬ range.offset + range.size < 2 ^ 64 at hge
      exact hstop (by rw [if_neg hge]; rfl)

end Bytes

variable {sort : UnstableSort BufferCopy.srcOffset} {applicationCapacity : Nat}
  {ranges : List DescriptorHeapUploadRange}

theorem prepare_run (sort : UnstableSort BufferCopy.srcOffset) (batch : DescriptorHeapUploadBatch)
    (h : ∀ range ∈ ranges, InRange (copyOf range)) :
    batch.prepare sort ranges = some ⟨(sort.sort (ranges.map copyOf)).foldl fold []⟩ := by
  have hsorted : ∀ d ∈ sort.sort (ranges.map copyOf), d.srcOffset < 2 ^ 64 := by
    intro d hd
    obtain ⟨range, hrange, rfl⟩ := mem_map.mp ((sort.perm _).mem_iff.mp hd)
    have := (h range hrange).stop
    omega
  have hshape : Compaction.Shape ⟨sort.sort (ranges.map copyOf), 0⟩ [] [] (sort.sort (ranges.map copyOf)) := ⟨rfl, rfl⟩
  obtain ⟨c, left, hrun, hend⟩ := hshape.run (by simp) hsorted
  grind [hend.copies, hend.compacted, prepare, range_eq_range']

/-- The prepared copies are the fewest that write the requested bytes and no others. -/
theorem prepare_compacts (sort : UnstableSort BufferCopy.srcOffset) (batch : DescriptorHeapUploadBatch)
    (h : validateUploadRanges applicationCapacity ranges = .ok ()) :
    ∃ prepared, batch.prepare sort ranges = some prepared ∧
      (∀ copy ∈ prepared.copies, copy.dstOffset = copy.srcOffset ∧ 0 < copy.size) ∧
      (∀ x, Held (prepared.copies.map BufferCopy.bytes) x ↔ Held (ranges.map DescriptorHeapUploadRange.bytes) x) ∧
      Gapped (prepared.copies.map BufferCopy.bytes) ∧ ∀ others : List BufferCopy,
        (∀ x, Held (others.map BufferCopy.bytes) x ↔ Held (ranges.map DescriptorHeapUploadRange.bytes) x) →
        prepared.copies.length ≤ others.length := by
  have hin := validateUploadRanges_inRange h
  set sorted := sort.sort (ranges.map copyOf) with hsort
  have hperm : sorted.Perm (ranges.map copyOf) := sort.perm _
  have hsorted : ∀ d ∈ sorted, InRange d := by
    intro d hd
    obtain ⟨range, hrange, rfl⟩ := mem_map.mp (hperm.mem_iff.mp hd)
    exact hin range hrange
  obtain ⟨hfold, hmap⟩ := foldl_fold_bytes (forall_mem_nil InRange) hsorted
  have hne : ∀ r ∈ sorted.map BufferCopy.bytes, r.Nonempty := by
    intro r hr
    obtain ⟨copy, hcopy, rfl⟩ := mem_map.mp hr
    exact Nat.lt_add_of_pos_right (hsorted copy hcopy).size
  have hstart : Merging [] 0 := ⟨List.Pairwise.nil, by simp, by simp⟩
  have hpairwise : (sorted.map BufferCopy.bytes).Pairwise fun a b => a.start ≤ b.start :=
    pairwise_map.mpr (sort.sorted _)
  obtain ⟨hgap, hnonempty, hheld⟩ := hstart.foldl_coalesce hne (by simp) hpairwise
  rw [map_nil] at hmap
  rw [← hmap] at hgap hnonempty hheld
  have hcover : ∀ x, Held ((sorted.foldl fold []).map BufferCopy.bytes) x ↔
      Held (ranges.map DescriptorHeapUploadRange.bytes) x := by
    intro x
    have hbytes : (ranges.map copyOf).map BufferCopy.bytes = ranges.map DescriptorHeapUploadRange.bytes := by
      rw [map_map]
      rfl
    rw [hheld x, held_perm (hperm.map _) x, hbytes]
    simp
  refine ⟨⟨sorted.foldl fold []⟩, prepare_run sort batch hin, ?_, hcover, hgap, ?_⟩
  · intro copy hcopy
    exact ⟨(hfold copy hcopy).same, (hfold copy hcopy).size⟩
  · intro others hothers
    have hle := hgap.length_le hnonempty fun x => (hothers x).trans (hcover x).symm
    simpa using hle

theorem prepare_compacts_touching : ∃ prepared, prepare (.stable _) ⟨[]⟩
    [⟨32, 16⟩, ⟨0, 16⟩, ⟨16, 16⟩, ⟨40, 16⟩, ⟨96, 8⟩] = some prepared ∧ prepared.copies = [⟨0, 0, 56⟩, ⟨96, 96, 8⟩] ∧
    Gapped (prepared.copies.map BufferCopy.bytes) := by
  obtain ⟨prepared, hrun, -, -, hgap, -⟩ := prepare_compacts (.stable _) ⟨[]⟩
    (show validateUploadRanges 104 [⟨32, 16⟩, ⟨0, 16⟩, ⟨16, 16⟩, ⟨40, 16⟩, ⟨96, 8⟩] = .ok () from rfl)
  obtain rfl := Option.some.inj (hrun.symm.trans (show _ = some ⟨[⟨0, 0, 56⟩, ⟨96, 96, 8⟩]⟩ from rfl))
  exact ⟨_, hrun, rfl, hgap⟩

end DescriptorHeapUploadBatch

end TensorDE.Renderer
