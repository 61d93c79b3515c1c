import TensorDE.Lib.Trace
import TensorDE.Renderer.DescriptorHeap

set_option linter.dupNamespace false

namespace TensorDE.Renderer.DescriptorHeapAllocator

open Effect Ranges Range Trace List

section Normalize

variable {merged free rest : List Range} {range : Range}

/-- What one round of the merging loop keeps: the merged ranges are apart and below what comes. -/
structure Merged (merged : List Range) (bound : Nat) : Prop where
  gapped : Gapped merged
  nonempty : ∀ r ∈ merged, r.Nonempty
  below : ∀ r ∈ merged, r.stop ≤ bound

theorem coalesce_merged (h : Merged merged range.start) (hr : range.Nonempty) :
    Merged (coalesce merged range) range.stop ∧
      ∀ x, cover (coalesce merged range) x = cover merged x + cover [range] x := by
  have hlt : range.start < range.stop := hr
  cases merged using reverseRecOn with
  | nil => exact ⟨⟨pairwise_singleton _ _, by simpa [coalesce] using hr, by simp [coalesce]⟩, by simp [coalesce]⟩
  | append_singleton init previous =>
    have hprev := h.below previous (by simp)
    have hpne : previous.start < previous.stop := h.nonempty previous (by simp)
    obtain ⟨hinit, _, hgap⟩ := pairwise_append.mp h.gapped
    by_cases htouch : range.start ≤ previous.stop
    · have heq : previous.stop = range.start := le_antisymm hprev htouch
      have hco : coalesce (init ++ [previous]) range = init ++ [⟨previous.start, range.stop⟩] := by
        simp [coalesce, heq, hlt.le]
      rw [hco]
      refine ⟨⟨pairwise_append.mpr ⟨hinit, pairwise_singleton _ _, ?_⟩, ?_, ?_⟩, ?_⟩
      · grind
      · grind [h.nonempty, Range.Nonempty]
      · grind [h.below]
      · intro x
        have hprevious : previous = ⟨previous.start, range.start⟩ := by rw [← heq]
        rw [cover_append, cover_append, cover_cut (heq ▸ hpne.le) hlt.le, ← hprevious, Nat.add_assoc]
    · have hco : coalesce (init ++ [previous]) range = (init ++ [previous]) ++ [range] := by
        simp [coalesce, htouch]
      rw [hco]
      refine ⟨⟨pairwise_append.mpr ⟨h.gapped, pairwise_singleton _ _, ?_⟩, ?_, ?_⟩, fun x => cover_append _ _ x⟩
      · grind +splitImp +splitIndPred
      · grind [h.nonempty]
      grind [h.below]

theorem foldl_coalesce {bound : Nat} (h : Merged merged bound) (hne : ∀ r ∈ rest, r.Nonempty)
    (hbound : ∀ r ∈ rest, bound ≤ r.start) (hsort : rest.Pairwise fun a b => a.stop ≤ b.start) :
    Gapped (rest.foldl coalesce merged) ∧ (∀ r ∈ rest.foldl coalesce merged, r.Nonempty) ∧
      ∀ x, cover (rest.foldl coalesce merged) x = cover merged x + cover rest x := by
  induction rest generalizing merged bound with
  | nil => exact ⟨h.gapped, h.nonempty, by simp⟩
  | cons range rest ih =>
    obtain ⟨hlater, hsort⟩ := pairwise_cons.mp hsort
    simp only [mem_cons, forall_eq_or_imp] at hne hbound
    have hm : Merged merged range.start := ⟨h.gapped, h.nonempty, fun r hr => (h.below r hr).trans hbound.1⟩
    grind [coalesce_merged, cover_cons, cover_nil]

theorem normalizeFreeRanges_spec (hne : ∀ r ∈ free, r.Nonempty) (hone : ∀ x, cover free x ≤ 1) :
    Gapped (normalizeFreeRanges free) ∧ (∀ r ∈ normalizeFreeRanges free, r.Nonempty) ∧
      ∀ x, cover (normalizeFreeRanges free) x = cover free x := by
  have hperm := perm_insertionSort (fun a b : Range => a.start ≤ b.start) free
  have hsorted : (free.insertionSort fun a b => a.start ≤ b.start).Pairwise fun a b => a.start ≤ b.start := by
    exact pairwise_insertionSort _ free
  have hne' : ∀ r ∈ free.insertionSort fun a b => a.start ≤ b.start, r.Nonempty := fun r hr => hne r (hperm.mem_iff.mp hr)
  have hapart : (free.insertionSort fun a b => a.start ≤ b.start).Pairwise Apart :=
    pairwise_apart fun x => (cover_perm hperm x).le.trans (hone x)
  have hordered : (free.insertionSort fun a b => a.start ≤ b.start).Pairwise fun a b => a.stop ≤ b.start :=
    (hapart.and hsorted).imp_of_mem fun _ hb hab => Apart.stop_le hab.1 hab.2 (hne' _ hb)
  have hstart : Merged [] 0 := ⟨List.Pairwise.nil, by simp, by simp⟩
  obtain ⟨hgap, hnonempty, hcover⟩ := foldl_coalesce hstart hne' (by simp) hordered
  grind [normalizeFreeRanges, cover_nil, cover_perm]

end Normalize

section Place

variable {size alignment : Nat} {free block : Range} {ranges : List Range}

theorem place_spec (h : alignment.isPowerOfTwo) (ha : alignment < 2 ^ 64) (hp : place size alignment free = some block) :
    free.start ≤ block.start ∧ alignment ∣ block.start ∧ block.stop = block.start + size ∧ block.stop ≤ free.stop := by
  simp only [place, Option.bind_eq_bind, Option.bind_eq_some_iff] at hp
  obtain ⟨start, hstart, stop, hstop, hblock⟩ := hp
  obtain ⟨hle, _, hdvd⟩ := Align.alignUp_spec h ha hstart
  grind [checkedAdd]

theorem place_none (h : alignment.isPowerOfTwo) (ha : alignment < 2 ^ 64) (hfree : free.stop < 2 ^ 64)
    (hp : place size alignment free = none) {start : Nat} (hle : free.start ≤ start) (hdvd : alignment ∣ start) :
    free.stop < start + size := by
  cases hs : Align.alignUp free.start alignment with
  | none =>
    have := Align.alignUp_none h ha hs hle hdvd
    omega
  | some least =>
    have hleast := Align.le_of_alignUp h ha hs hle hdvd
    grind [checkedAdd, place]

theorem firstFit_some {index found : Nat} (h : firstFit size alignment index ranges = some (found, free, block)) :
    index ≤ found ∧ ranges[found - index]? = some free ∧ place size alignment free = some block := by
  induction ranges generalizing index with
  | nil => cases h
  | cons range rest ih => grind -linarith [firstFit]

theorem firstFit_none {index : Nat} (h : firstFit size alignment index ranges = none) :
    ∀ free ∈ ranges, place size alignment free = none := by
  induction ranges generalizing index with
  | nil => simp
  | cons range rest ih => grind [firstFit]

theorem availableBytes_run {s : DescriptorHeapAllocatorState} (h : (ranges.map Range.size).sum < 2 ^ 64) :
    availableBytes ranges s = .ok (ranges.map Range.size).sum s := by
  have hgen : ∀ total, total + (ranges.map Range.size).sum < 2 ^ 64 →
      ranges.foldlM (fun total range => addUsize total range.size) total s =
        (.ok (total + (ranges.map Range.size).sum) s : EStateM.Result (Fault DescriptorHeapError) _ _) := by
    clear h
    induction ranges with
    | nil => simp
    | cons range rest ih =>
      intro total htotal
      simp only [map_cons, sum_cons] at htotal ⊢
      have hadd : total + range.size < 2 ^ 64 := by omega
      rw [foldlM_cons, addUsize, checkedAdd, if_pos hadd, expect_some, pure_bind, ih _ (by omega),
        Nat.add_assoc]
  simpa [availableBytes] using hgen 0 (by omega)

end Place

/-- An allocator in use: its state, and the allocations handed out and not given back. One that a
failing call swallowed stays among them. -/
structure Session where
  state : DescriptorHeapAllocatorState
  outstanding : List DescriptorAllocation

inductive Event where
  | allocate (size descriptorAlignment : UInt64) (result : Except DescriptorHeapError DescriptorAllocation)
  | retire (allocation : DescriptorAllocation) (after : UInt64) (result : Except DescriptorHeapError Unit)
  | reclaim (completedTimeline : UInt64) (reclaimed : Nat)
  | release (allocation : DescriptorAllocation) (result : Except DescriptorHeapError Unit)

/-- A caller can pass an allocation that this allocator handed out, or one of another allocator. -/
def Session.Holds (s : Session) (allocation : DescriptorAllocation) : Prop :=
  allocation ∈ s.outstanding ∨ allocation.allocatorId ≠ s.state.id

inductive Step : Session → Event → Session → Prop where
  | allocated {s t size alignment allocation} : allocate size alignment s.state = .ok allocation t →
      Step s (.allocate size alignment (.ok allocation)) ⟨t, allocation :: s.outstanding⟩
  | allocateFailed {s t size alignment e} : allocate size alignment s.state = .error (.error e) t →
      Step s (.allocate size alignment (.error e)) ⟨t, s.outstanding⟩
  | retired {s t allocation after} : s.Holds allocation → retireAtTimeline allocation after s.state = .ok () t →
      Step s (.retire allocation after (.ok ())) ⟨t, s.outstanding.erase allocation⟩
  | retireFailed {s t allocation after e} : s.Holds allocation →
      retireAtTimeline allocation after s.state = .error (.error e) t →
      Step s (.retire allocation after (.error e)) ⟨t, s.outstanding⟩
  | reclaimed {s t completed count} : reclaim completed s.state = .ok count t →
      Step s (.reclaim completed count) ⟨t, s.outstanding⟩
  | released {s t allocation} : s.Holds allocation → release allocation s.state = .ok () t →
      Step s (.release allocation (.ok ())) ⟨t, s.outstanding.erase allocation⟩
  | releaseFailed {s t allocation e} : s.Holds allocation → release allocation s.state = .error (.error e) t →
      Step s (.release allocation (.error e)) ⟨t, s.outstanding⟩

/-- Every byte range the allocator is answerable for. -/
def Session.ranges (s : Session) : List Range :=
  s.state.free ++ s.state.retired.map Prod.snd ++ s.outstanding.map DescriptorAllocation.range

structure Sound (s : Session) : Prop where
  limit : s.state.reservedRangeOffset < 2 ^ 64
  nonempty : ∀ r ∈ s.ranges, r.Nonempty
  once : ∀ x, cover s.ranges x = if x < s.state.reservedRangeOffset then 1 else 0
  gapped : Gapped s.state.free
  own : ∀ a ∈ s.outstanding, a.allocatorId = s.state.id

section Sound

variable {s t : Session} {state state' : DescriptorHeapAllocatorState} {e : DescriptorHeapError}
  {size alignment after completed : UInt64} {allocation : DescriptorAllocation}

theorem Sound.stop_le (h : Sound s) {r : Range} (hr : r ∈ s.ranges) : r.stop ≤ s.state.reservedRangeOffset := by
  have hne : r.start < r.stop := h.nonempty r hr
  have hpos : 0 < cover s.ranges (r.stop - 1) := cover_pos.mpr ⟨r, hr, by omega, by omega⟩
  rw [h.once] at hpos
  split at hpos <;> omega

theorem allocate_ok (h : allocate size alignment state = .ok allocation state') :
    size ≠ 0 ∧ alignment.toNat.isPowerOfTwo ∧ ∃ index free block,
      state.free[index]? = some free ∧ place size.toNat alignment.toNat free = some block ∧
      allocation = ⟨block, state.id⟩ ∧ state' = { state with free := normalizeFreeRanges (state.free.eraseIdx index ++
        (if free.start < block.start then [⟨free.start, block.start⟩] else []) ++
        (if block.stop < free.stop then [⟨block.stop, free.stop⟩] else [])) } := by
  unfold allocate at h
  split at h
  · cases h
  split at h
  · cases h
  simp only [bind_run, get_run] at h
  cases hf : firstFit size.toNat alignment.toNat 0 state.free with
  | none =>
    simp only [hf, bind_run] at h
    split at h <;> cases h
  | some found =>
    obtain ⟨_, hget, hplace⟩ := firstFit_some hf
    simp only [hf, bind_run, set_run, pure_run] at h
    grind -linarith

theorem Sound.sum_free_lt (h : Sound s) : (s.state.free.map Range.size).sum < 2 ^ 64 := by
  have hmem : ∀ r ∈ s.state.free, r ∈ s.ranges := fun r hr => by simp [Session.ranges, hr]
  have hsum : (s.state.free.map Range.size).sum + 0 ≤ s.state.reservedRangeOffset :=
    sum_size_le (fun r hr => h.nonempty r (hmem r hr)) h.gapped (by simp) (fun r hr => h.stop_le (hmem r hr)) (Nat.zero_le _)
  exact lt_of_le_of_lt hsum h.limit

theorem allocate_error (hsum : (state.free.map Range.size).sum < 2 ^ 64)
    (h : allocate size alignment state = .error (.error e) state') : state' = state ∧
    ∀ requested available, e = .outOfMemory requested available →
      alignment.toNat.isPowerOfTwo ∧ ∀ free ∈ state.free, place size.toNat alignment.toNat free = none := by
  unfold allocate at h
  split at h
  · cases h
    exact ⟨rfl, by simp⟩
  split at h
  · cases h
    exact ⟨rfl, by simp⟩
  simp only [bind_run, get_run] at h
  cases hf : firstFit size.toNat alignment.toNat 0 state.free with
  | some found => simp [hf] at h
  | none =>
    simp only [hf, bind_run, availableBytes_run hsum, fail_run] at h
    grind [firstFit_none]

section Surrender

variable {give : DescriptorHeapAllocatorState → Range → DescriptorHeapAllocatorState}

theorem surrender_ok (h : surrender allocation give state = .ok () state') :
    allocation.allocatorId = state.id ∧ state' = give state allocation.range := by
  simp only [surrender, bind_run, get_run] at h
  split at h
  · cases h
  split at h
  · cases h
  rename_i hid _
  cases h
  exact ⟨not_not.mp hid, rfl⟩

theorem surrender_error (h : surrender allocation give state = .error (.error e) state') : state' = state := by
  simp only [surrender, bind_run, get_run] at h
  split at h
  · cases h
    rfl
  split at h <;> cases h

end Surrender

theorem retireAtTimeline_ok (h : retireAtTimeline allocation after state = .ok () state') :
    allocation.allocatorId = state.id ∧
      state' = { state with retired := state.retired ++ [(after.toNat, allocation.range)] } := by
  unfold retireAtTimeline at h
  split at h
  · cases h
  · exact surrender_ok h

theorem retireAtTimeline_error (h : retireAtTimeline allocation after state = .error (.error e) state') :
    state' = state := by
  unfold retireAtTimeline at h
  split at h
  · cases h
    rfl
  · exact surrender_error h

theorem cover_filter_add (p : Nat × Range → Prop) [DecidablePred p] (retired : List (Nat × Range)) (x : Nat) :
    cover ((retired.filter fun entry => p entry).map Prod.snd) x +
      cover ((retired.filter fun entry => ¬ p entry).map Prod.snd) x = cover (retired.map Prod.snd) x := by
  induction retired with
  | nil => rfl
  | cons entry retired ih =>
    by_cases h : p entry <;> simp [h] at ih ⊢ <;> omega

variable {outstanding : List DescriptorAllocation}

/-- The partition survives whatever moves ranges between the three lists. -/
theorem Sound.of_free (h : Sound s) {raw : List Range} (retired : List (Nat × Range))
    (hne : ∀ r ∈ raw ++ retired.map Prod.snd ++ outstanding.map DescriptorAllocation.range, r.Nonempty)
    (hcover : ∀ x, cover (raw ++ retired.map Prod.snd ++ outstanding.map DescriptorAllocation.range) x =
      cover s.ranges x) (hown : ∀ a ∈ outstanding, a.allocatorId = s.state.id) :
    Sound ⟨{ s.state with free := normalizeFreeRanges raw, retired }, outstanding⟩ := by
  have hone : ∀ x, cover raw x ≤ 1 := by
    intro x
    have hx := hcover x
    rw [h.once] at hx
    simp only [cover_append] at hx
    split at hx <;> omega
  obtain ⟨hgap, hnonempty, hsame⟩ := normalizeFreeRanges_spec (fun r hr => hne r (by simp [hr])) hone
  refine ⟨h.limit, ?_, ?_, hgap, hown⟩
  · grind [Session.ranges]
  · intro x
    rw [← h.once x, ← hcover x]
    simp only [Session.ranges, cover_append, hsame]

theorem Sound.allocate (h : Sound s) (ha : allocate size alignment s.state = .ok allocation state') :
    Sound ⟨state', allocation :: s.outstanding⟩ := by
  obtain ⟨hsize, hpow, index, ⟨start, stop⟩, ⟨first, last⟩, hget, hplace, rfl, rfl⟩ := allocate_ok ha
  obtain ⟨hle, _, hstop, hfit⟩ := place_spec hpow alignment.toNat_lt hplace
  have hpos : 0 < size.toNat := Nat.pos_of_ne_zero fun h0 => hsize (UInt64.toNat_inj.mp h0)
  have hblock : first < last := by
    simp only at hstop
    omega
  refine h.of_free _ ?_ ?_ (by simpa using h.own)
  · have hold := h.nonempty
    simp only [Session.ranges, mem_append] at hold
    simp only [map_cons, mem_append, mem_cons]
    rintro r ((((hr | hr) | hr) | hr) | rfl | hr)
    · exact hold r (.inl (.inl (mem_of_mem_eraseIdx hr)))
    · exact nonempty_of_mem_ite hr
    · exact nonempty_of_mem_ite hr
    · exact hold r (.inl (.inr hr))
    · exact hblock
    · exact hold r (.inr hr)
  · intro x
    have hfree := cover_eraseIdx hget x
    have hcut := cover_cut hle (hblock.le.trans hfit) x
    have hcut' := cover_cut hblock.le hfit x
    simp only [Session.ranges, cover_append, cover_ite, map_cons, cover_cons] at hcut hcut' ⊢
    omega

theorem cover_erase (h : allocation ∈ s.outstanding) (x : Nat) :
    cover (s.outstanding.map DescriptorAllocation.range) x =
      cover [allocation.range] x + cover ((s.outstanding.erase allocation).map DescriptorAllocation.range) x := by
  rw [cover_perm ((perm_cons_erase h).map _), map_cons]
  simp

theorem Session.Holds.mem (hs : s.Holds allocation) (hid : allocation.allocatorId = s.state.id) :
    allocation ∈ s.outstanding := hs.resolve_right (not_not.mpr hid)

theorem Sound.retire (h : Sound s) (hs : s.Holds allocation) (hr : retireAtTimeline allocation after s.state = .ok () state') :
    Sound ⟨state', s.outstanding.erase allocation⟩ := by
  obtain ⟨hid, rfl⟩ := retireAtTimeline_ok hr
  have hmem := hs.mem hid
  have hold := h.nonempty
  refine ⟨h.limit, ?_, ?_, h.gapped, fun a ha => h.own a (mem_of_mem_erase ha)⟩
  · grind [Session.ranges]
  · intro x
    rw [← h.once x]
    simp only [Session.ranges, cover_append, cover_erase hmem, map_append, map_cons, map_nil]
    omega

theorem Sound.release (h : Sound s) (hs : s.Holds allocation) (hr : release allocation s.state = .ok () state') :
    Sound ⟨state', s.outstanding.erase allocation⟩ := by
  obtain ⟨hid, rfl⟩ := surrender_ok hr
  grind [hs.mem, h.nonempty, Session.ranges, h.of_free, h.own, cover_append, cover_erase]

theorem Sound.reclaim (h : Sound s) {count : Nat} (hr : reclaim completed s.state = .ok count state') :
    Sound ⟨state', s.outstanding⟩ := by
  have hsplit := cover_filter_add (fun entry => entry.1 ≤ completed.toNat) s.state.retired
  cases hr
  split
  · rename_i hnone
    have hall : s.state.retired.filter (fun entry => ¬ entry.1 ≤ completed.toNat) = s.state.retired := by
      refine filter_eq_self.mpr fun entry hentry => ?_
      simpa using filter_eq_nil_iff.mp hnone entry hentry
    rw [hnone, hall]
    simpa using h
  grind [h.of_free, h.own, h.nonempty, Session.ranges, cover_append]

theorem Step.sound {event : Event} (h : Sound s) (hs : Step s event t) : Sound t := by
  cases hs with
  | allocated ha => exact h.allocate ha
  | allocateFailed ha =>
    obtain ⟨rfl, _⟩ := allocate_error h.sum_free_lt ha
    exact h
  | retired hs hr => exact h.retire hs hr
  | retireFailed hs hr =>
    obtain rfl := retireAtTimeline_error hr
    exact h
  | reclaimed hr => exact h.reclaim hr
  | released hs hr => exact h.release hs hr
  | releaseFailed hs hr =>
    obtain rfl := surrender_error hr
    exact h

variable {heapSize minimumReservedRange : UInt64} {counter counter' : Nat}

theorem new_sound (h : new heapSize minimumReservedRange alignment counter = .ok state counter') : Sound ⟨state, []⟩ := by
  unfold new at h
  split at h
  · cases h
  obtain ⟨id, _, _, h⟩ := bind_eq_ok.mp h
  obtain ⟨reserved, _, _, h⟩ := bind_eq_ok.mp h
  dsimp only at h
  split at h
  · cases h
  split at h
  · cases h
  rename_i hpos
  cases h
  refine ⟨?_, ?_, ?_, pairwise_singleton _ _, by simp⟩
  · grind [Align.alignDown_le, heapSize.toNat_lt]
  · intro r hr
    obtain rfl : r = _ := by simpa [Session.ranges] using hr
    exact Nat.pos_of_ne_zero hpos
  · simp [Session.ranges, Holds]

theorem new_retired (h : new heapSize minimumReservedRange alignment counter = .ok state counter') : state.retired = [] := by
  unfold new at h
  split at h
  · cases h
  obtain ⟨id, _, _, h⟩ := bind_eq_ok.mp h
  obtain ⟨reserved, _, _, h⟩ := bind_eq_ok.mp h
  dsimp only at h
  split at h
  · cases h
  split at h
  · cases h
  cases h
  rfl

theorem Sound.perm (h : Sound s) (hp : s.outstanding.Perm outstanding) : Sound ⟨s.state, outstanding⟩ := by
  have hranges : s.ranges.Perm (Session.ranges ⟨s.state, outstanding⟩) := (hp.map _).append_left _
  exact ⟨h.limit, fun r hr => h.nonempty r (hranges.mem_iff.mpr hr), fun x => by rw [← cover_perm hranges, h.once], h.gapped,
    fun a ha => h.own a (hp.mem_iff.mpr ha)⟩

theorem Sound.surrenders (h : Sound s) (hmem : allocation ∈ s.outstanding)
    (give : DescriptorHeapAllocatorState → Range → DescriptorHeapAllocatorState) :
    surrender allocation give s.state = .ok () (give s.state allocation.range) := by
  have hstop : ¬ s.state.reservedRangeOffset < allocation.range.stop :=
    Nat.not_lt.mpr (h.stop_le (mem_append_right _ (mem_map_of_mem hmem)))
  simp [surrender, h.own allocation hmem, hstop]

end Sound

/-- The heap below the reserved range is shared out among free, retired and outstanding ranges. -/
structure Partitioned (s : Session) : Prop where
  apart : s.ranges.Pairwise Apart
  covers : ∀ x, (∃ r ∈ s.ranges, r.Holds x) ↔ x < s.state.reservedRangeOffset
  nonempty : ∀ r ∈ s.ranges, r.Nonempty
  gapped : Gapped s.state.free

def Session.Unchanged (s t : Session) : Prop :=
  t.state.free = s.state.free ∧ t.state.retired = s.state.retired

/-- What a single call owes its caller. -/
def Event.Honest (s t : Session) : Event → Prop
  | .allocate size alignment (.ok allocation) =>
      alignment.toNat ∣ allocation.range.start ∧ allocation.range.stop = allocation.range.start + size.toNat
  | .allocate size alignment (.error e) => s.Unchanged t ∧
      ∀ requested available, e = .outOfMemory requested available →
        ∀ free ∈ s.state.free, ∀ start, free.start ≤ start → alignment.toNat ∣ start →
          free.stop < start + size.toNat
  | .retire _ _ (.error _) => s.Unchanged t
  | .release _ (.error _) => s.Unchanged t
  | _ => True

section Runs

variable {s t : Session} {event : Event} {events : List Event}

theorem Sound.partitioned (h : Sound s) : Partitioned s := by
  refine ⟨pairwise_apart fun x => ?_, fun x => ?_, h.nonempty, h.gapped⟩
  · rw [h.once]
    split <;> omega
  · rw [← cover_pos, h.once]
    split <;> omega

theorem Step.honest (h : Sound s) (hs : Step s event t) : event.Honest s t := by
  cases hs with
  | @allocated t size alignment allocation ha =>
    obtain ⟨_, hpow, _, _, _, _, hplace, rfl, _⟩ := allocate_ok ha
    obtain ⟨_, hdvd, hstop, _⟩ := place_spec hpow alignment.toNat_lt hplace
    exact ⟨hdvd, hstop⟩
  | @allocateFailed t size alignment e ha =>
    obtain ⟨rfl, hfull⟩ := allocate_error h.sum_free_lt ha
    refine ⟨⟨rfl, rfl⟩, fun requested available he free hfree start hle hdvd => ?_⟩
    obtain ⟨hpow, hnone⟩ := hfull requested available he
    have hstop := h.stop_le (r := free) (by simp [Session.ranges, hfree])
    exact place_none hpow alignment.toNat_lt (lt_of_le_of_lt hstop h.limit) (hnone free hfree) hle hdvd
  | retireFailed _ hr =>
    obtain rfl := retireAtTimeline_error hr
    exact ⟨rfl, rfl⟩
  | releaseFailed _ hr =>
    obtain rfl := surrender_error hr
    exact ⟨rfl, rfl⟩
  | retired | reclaimed | released => trivial

variable {entry : Nat × Range}

/-- A retired range is kept back by everything but a reclaim that has reached its timeline value. -/
theorem Step.keeps_retired (h : Sound s) (hs : Step s event t) (hmem : entry ∈ s.state.retired)
    (hearly : ∀ completed count, event = .reclaim completed count → completed.toNat < entry.1) :
    entry ∈ t.state.retired := by
  cases hs with
  | allocated ha =>
    obtain ⟨_, _, _, _, _, _, _, _, rfl⟩ := allocate_ok ha
    exact hmem
  | allocateFailed ha => exact (allocate_error h.sum_free_lt ha).1 ▸ hmem
  | retired _ hr =>
    obtain ⟨_, rfl⟩ := retireAtTimeline_ok hr
    exact mem_append_left _ hmem
  | retireFailed _ hr => exact retireAtTimeline_error hr ▸ hmem
  | @reclaimed t completed count hr =>
    have hlt := hearly completed count rfl
    cases hr
    simpa using ⟨hmem, hlt⟩
  | released _ hr =>
    obtain ⟨_, rfl⟩ := surrender_ok hr
    exact hmem
  | releaseFailed _ hr => exact surrender_error hr ▸ hmem

theorem Sound.allocated_apart {size alignment : UInt64} {allocation : DescriptorAllocation}
    (h : Sound s) (hs : Step s (.allocate size alignment (.ok allocation)) t) (hmem : entry ∈ s.state.retired) :
    Apart allocation.range entry.2 := by
  have hkept := hs.keeps_retired h hmem (by simp)
  have hsound := hs.sound h
  cases hs with
  | allocated ha => grind [hsound.partitioned.apart, Session.ranges, Range.Apart]

theorem keeps_retired_run (hr : Run Step s events t) (h : Sound s) (hmem : entry ∈ s.state.retired)
    (hearly : ∀ completed count, .reclaim completed count ∈ events → completed.toNat < entry.1) :
    entry ∈ t.state.retired ∧ ∀ size alignment allocation,
      .allocate size alignment (.ok allocation) ∈ events → Apart allocation.range entry.2 := by
  induction hr with
  | nil s => exact ⟨hmem, by simp⟩
  | @cons s t u event events hs _ ih => grind [hs.keeps_retired, hs.sound, h.allocated_apart]

/-- Whatever is called, the heap stays shared out, each call keeps its word, and a range retired at
a timeline value is not handed out before a reclaim that has reached this value. -/
theorem allocator_runs {heapSize minimumReservedRange alignment : UInt64} {counter counter' : Nat}
    {state : DescriptorHeapAllocatorState}
    (hnew : new heapSize minimumReservedRange alignment counter = .ok state counter')
    (hrun : Run Step ⟨state, []⟩ events s) : Partitioned s ∧ (∀ event t, Step s event t → event.Honest s t) ∧
      ∀ timeline range, (timeline, range) ∈ s.state.retired → ∀ later t, Run Step s later t →
        (∀ completed count, .reclaim completed count ∈ later → completed.toNat < timeline) →
          (timeline, range) ∈ t.state.retired ∧ ∀ size alignment allocation,
            .allocate size alignment (.ok allocation) ∈ later → Apart allocation.range range := by
  have hsound : Sound s := hrun.invariant (Q := fun _ => True) (fun _ _ _ h _ hs => hs.sound h)
    (new_sound hnew) (by simp)
  exact ⟨hsound.partitioned, fun event t hs => hs.honest hsound, fun timeline range hmem later t hlater hearly =>
    keeps_retired_run hlater hsound hmem hearly⟩

def smallHeap (free : List Range) (retired : List (Nat × Range)) : DescriptorHeapAllocatorState :=
  ⟨1, 1024, 16, 960, 64, free, retired⟩

theorem allocator_runs_smallHeap : ∃ s later t, Run Step ⟨smallHeap [⟨0, 960⟩] [], []⟩
      [.allocate 100 16 (.ok ⟨⟨0, 100⟩, 1⟩), .retire ⟨⟨0, 100⟩, 1⟩ 5 (.ok ())] s ∧
    Run Step s later t ∧ .allocate 8 16 (.ok ⟨⟨112, 120⟩, 1⟩) ∈ later ∧ Partitioned s ∧ Apart ⟨112, 120⟩ ⟨0, 100⟩ := by
  have hnew : new 1024 60 16 1 = .ok (smallHeap [⟨0, 960⟩] []) 2 := rfl
  have hrun : Run Step ⟨smallHeap [⟨0, 960⟩] [], []⟩
      [.allocate 100 16 (.ok ⟨⟨0, 100⟩, 1⟩), .retire ⟨⟨0, 100⟩, 1⟩ 5 (.ok ())]
      ⟨smallHeap [⟨100, 960⟩] [(5, ⟨0, 100⟩)], []⟩ :=
    .cons (.allocated rfl) (.cons (.retired (.inl (by simp)) rfl) (.nil _))
  have hlater : Run Step ⟨smallHeap [⟨100, 960⟩] [(5, ⟨0, 100⟩)], []⟩ [.allocate 8 16 (.ok ⟨⟨112, 120⟩, 1⟩)]
      ⟨smallHeap [⟨100, 112⟩, ⟨120, 960⟩] [(5, ⟨0, 100⟩)], [⟨⟨112, 120⟩, 1⟩]⟩ :=
    .cons (.allocated rfl) (.nil _)
  obtain ⟨hpart, _, hretired⟩ := allocator_runs hnew hrun
  have hapart := (hretired 5 ⟨0, 100⟩ (by simp [smallHeap]) _ _ hlater (by simp)).2 8 16 _ (List.mem_singleton_self _)
  exact ⟨_, _, _, hrun, hlater, List.mem_singleton_self _, hpart, hapart⟩

end Runs

end TensorDE.Renderer.DescriptorHeapAllocator
