import TensorDE.Lib.Keyed
import TensorDE.Renderer.DescriptorHeapRuns
import TensorDE.Renderer.MemoryAllocator

set_option linter.dupNamespace false

namespace TensorDE.Renderer.Memory

open Effect Ranges Range Trace List

namespace RangeAllocator

section Place

variable {size alignment index found : Nat} {free range : Range} {ranges : List Range}

theorem alignUp_eq_some {value start : Nat} (h : alignUp value alignment = some start) :
    alignment.isPowerOfTwo ∧ Align.alignUp value alignment = some start := by
  grind [alignUp]

theorem place_some (ha : alignment < 2 ^ 64) (h : place size alignment index ranges = some (found, free, range)) :
    index ≤ found ∧ ranges[found - index]? = some free ∧ free.start ≤ range.start ∧ alignment ∣ range.start ∧
      range.stop = range.start + size ∧ range.stop ≤ free.stop := by
  induction ranges generalizing index with
  | nil => cases h
  | cons first rest ih =>
    rw [place] at h
    simp only [Option.bind_eq_bind, Option.bind_eq_some_iff] at h
    obtain ⟨start, hstart, stop, hstop, h⟩ := h
    obtain ⟨hpow, hstart⟩ := alignUp_eq_some hstart
    obtain ⟨hle, -, hdvd⟩ := Align.alignUp_spec hpow ha hstart
    grind [checkedAdd]

/-- A search that ends without a place has passed over no room, also where it ended early. -/
theorem place_none (hpow : alignment.isPowerOfTwo) (ha : alignment < 2 ^ 64)
    (hsorted : ranges.Pairwise fun a b => a.start ≤ b.start) (hlimit : ∀ r ∈ ranges, r.stop < 2 ^ 64)
    (h : place size alignment index ranges = none) :
    ∀ free ∈ ranges, ∀ start, free.start ≤ start → alignment ∣ start → free.stop < start + size := by
  induction ranges generalizing index with
  | nil => simp
  | cons first rest ih =>
    obtain ⟨hlater, hrest⟩ := pairwise_cons.mp hsorted
    have hstarts : ∀ free ∈ first :: rest, first.start ≤ free.start := by
      intro free hfree
      rcases mem_cons.mp hfree with rfl | hfree
      · exact le_rfl
      · exact hlater free hfree
    rw [place] at h
    cases hstart : alignUp first.start alignment with
    | none =>
      rw [alignUp, if_neg (not_not.mpr hpow)] at hstart
      intro free hfree start hle hdvd
      have hover := Align.alignUp_none hpow ha hstart ((hstarts free hfree).trans hle) hdvd
      have := hlimit free hfree
      omega
    | some least =>
      obtain ⟨-, hleast⟩ := alignUp_eq_some hstart
      rw [hstart] at h
      simp only [Option.bind_eq_bind, Option.bind_some] at h
      cases hstop : checkedAdd least size with
      | none =>
        intro free hfree start hle hdvd
        have hge := Align.le_of_alignUp hpow ha hleast ((hstarts free hfree).trans hle) hdvd
        grind [checkedAdd]
      | some stop =>
        rw [hstop] at h
        simp only [checkedAdd, Option.ite_none_right_eq_some, Option.some.injEq] at hstop
        rw [Option.bind_some] at h
        split at h
        · intro free hfree start hle hdvd
          rcases mem_cons.mp hfree with rfl | hfree
          · have hge := Align.le_of_alignUp hpow ha hleast hle hdvd
            omega
          grind -linarith
        · cases h

end Place

/-- The block is shared out among its free ranges and the ranges in use. -/
structure Shared (ranges : RangeAllocator) (live : List Range) : Prop where
  limit : ranges.size < 2 ^ 64
  nonempty : ∀ r ∈ ranges.free ++ live, r.Nonempty
  once : ∀ x, cover (ranges.free ++ live) x = if x < ranges.size then 1 else 0
  gapped : Gapped ranges.free

namespace Shared

variable {ranges ranges' : RangeAllocator} {live live' : List Range} {range : Range} {size alignment : Nat}

theorem new (hpos : 0 < size) (hlimit : size < 2 ^ 64) : Shared (RangeAllocator.new size) [] where
  limit := hlimit
  nonempty := by
    intro r hr
    obtain rfl := mem_singleton.mp hr
    exact hpos
  once := by
    grind [RangeAllocator.new, cover_cons, cover_nil, Holds]
  gapped := pairwise_singleton _ _

section

variable (h : Shared ranges live)
include h

theorem perm (hperm : live.Perm live') : Shared ranges live' where
  limit := h.limit
  nonempty := fun r hr => h.nonempty r ((hperm.append_left ranges.free).mem_iff.mpr hr)
  once := fun x => by rw [← h.once x, cover_append, cover_append, cover_perm hperm]
  gapped := h.gapped

theorem stop_le {r : Range} (hr : r ∈ ranges.free ++ live) : r.stop ≤ ranges.size := by
  have hne : r.start < r.stop := h.nonempty r hr
  have hpos : 0 < cover (ranges.free ++ live) (r.stop - 1) := cover_pos.mpr ⟨r, hr, by omega, by omega⟩
  rw [h.once] at hpos
  split at hpos <;> omega

theorem ext (h' : Shared ranges' live) (hsize : ranges.size = ranges'.size) : ranges = ranges' := by
  have hcover : ∀ x, cover ranges.free x = cover ranges'.free x := by
    intro x
    have hsum := h.once x
    rw [hsize, ← h'.once x, cover_append, cover_append] at hsum
    omega
  have hfree : ranges.free = ranges'.free := by
    refine h.gapped.ext h'.gapped (fun r hr => h.nonempty r (mem_append_left _ hr))
      (fun r hr => h'.nonempty r (mem_append_left _ hr)) fun x => ?_
    have hiff : 0 < cover ranges.free x ↔ 0 < cover ranges'.free x := by rw [hcover]
    exact (cover_pos).symm.trans (hiff.trans cover_pos)
  cases ranges
  simp_all

end

theorem normalize {raw : List Range} (hlimit : ranges.size < 2 ^ 64) (hne : ∀ r ∈ raw ++ live, r.Nonempty)
    (honce : ∀ x, cover (raw ++ live) x = if x < ranges.size then 1 else 0) :
    Shared (RangeAllocator.normalize { ranges with free := raw }) live := by
  have hone : ∀ x, cover raw x ≤ 1 := by
    intro x
    have hsum := honce x
    rw [cover_append] at hsum
    split at hsum <;> omega
  obtain ⟨hgap, hnonempty, hcover⟩ :=
    DescriptorHeapAllocator.normalizeFreeRanges_spec (fun r hr => hne r (mem_append_left _ hr)) hone
  refine ⟨hlimit, fun r hr => ?_, fun x => ?_, hgap⟩
  · rcases mem_append.mp hr with hr | hr
    · exact hnonempty r hr
    · exact hne r (mem_append_right _ hr)
  · rw [cover_append]
    change cover (normalizeFreeRanges raw) x + _ = _
    rw [hcover, ← cover_append, honce]
    rfl

section

variable (h : Shared ranges live)
include h

theorem allocate (hsize : 0 < size) (ha : alignment < 2 ^ 64)
    (hrun : ranges.allocate size alignment = some (range, ranges')) :
    Shared ranges' (range :: live) ∧ alignment ∣ range.start ∧ range.stop = range.start + size ∧
      ranges'.size = ranges.size := by
  rw [RangeAllocator.allocate] at hrun
  split at hrun
  · cases hrun
  rename_i index free found hplace
  cases hrun
  obtain ⟨first, last⟩ := free
  obtain ⟨start, stop⟩ := range
  obtain ⟨-, hget, hstart, hdvd, hstop, hle⟩ := place_some ha hplace
  simp only at hstart hstop hle
  rw [Nat.sub_zero] at hget
  refine ⟨Shared.normalize h.limit (fun r hr => ?_) (fun x => ?_), hdvd, hstop, rfl⟩
  · grind [h.nonempty, mem_of_mem_eraseIdx, nonempty_of_mem_ite, Range.Nonempty]
  · -- The free range is the front, the range handed out and the back.
    have hall := h.once x
    have hfree := cover_cut hstart (show start ≤ last by omega) x
    have hback := cover_cut (show start ≤ stop by omega) hle x
    rw [cover_append, cover_eraseIdx hget] at hall
    simp only [cover_append, cover_ite, cover_cons] at hall hfree hback ⊢
    omega

theorem release (hperm : live.Perm (range :: live')) :
    ∃ ranges', ranges.release range = some ranges' ∧ Shared ranges' live' ∧ ranges'.size = ranges.size := by
  have hshared := h.perm hperm
  have hmem : range ∈ ranges.free ++ range :: live' := by simp
  have hne : range.start < range.stop := hshared.nonempty range hmem
  refine ⟨_, if_pos ⟨hne, hshared.stop_le hmem⟩, Shared.normalize h.limit (fun r hr => ?_) (fun x => ?_), rfl⟩
  · grind [hshared.nonempty]
  grind [hshared.once]

theorem sum_free : (ranges.free.map Range.size).sum + (live.map Range.size).sum = ranges.size := by
  have hsum := sum_size_eq fun r (hr : r ∈ ranges.free ++ live) => h.stop_le hr
  rw [map_append, sum_append] at hsum
  rw [hsum, Finset.sum_congr rfl fun x hx => (h.once x).trans (if_pos (Finset.mem_range.mp hx))]
  simp

theorem available : ranges.available = some (ranges.free.map Range.size).sum := by
  have hgen : ∀ (free : List Range) (total : Nat), total + (free.map Range.size).sum < 2 ^ 64 →
      free.foldlM (fun total range => checkedAdd total range.size) total = some (total + (free.map Range.size).sum) := by
    intro free
    induction free with
    | nil => simp
    | cons r rest ih => grind [checkedAdd]
  grind [h.sum_free, h.limit, RangeAllocator.available]

theorem available_eq_size : (ranges.free.map Range.size).sum = ranges.size ↔ live = [] := by
  have hsum := h.sum_free
  constructor
  · intro hall
    cases live with
    | nil => rfl
    | cons r rest =>
      have hne : r.start < r.stop := h.nonempty r (by simp)
      rw [map_cons, sum_cons, Range.size] at hsum
      omega
  · rintro rfl
    simpa using hsum

end

end Shared

end RangeAllocator

def heldIn (holdings : List (Nat × Range)) (memory : Nat) : List Range :=
  (holdings.filter fun held => held.1 = memory).map Prod.snd

theorem heldIn_cons_self (holdings : List (Nat × Range)) (memory : Nat) (range : Range) :
    heldIn ((memory, range) :: holdings) memory = range :: heldIn holdings memory := by
  simp [heldIn]

variable {holdings : List (Nat × Range)}

theorem heldIn_cons_ne {memory other : Nat} (range : Range) (h : other ≠ memory) :
    heldIn ((memory, range) :: holdings) other = heldIn holdings other := by
  simp [heldIn, h.symm]

theorem heldIn_perm {holdings holdings' : List (Nat × Range)} (h : holdings.Perm holdings') (memory : Nat) :
    (heldIn holdings memory).Perm (heldIn holdings' memory) :=
  (h.filter _).map _

theorem heldIn_eq_nil {memory : Nat} : heldIn holdings memory = [] ↔ ∀ held ∈ holdings, held.1 ≠ memory := by
  simp [heldIn]

structure BlocksSound (allocator : MemoryAllocator) (pool : MemoryPool) (holdings : List (Nat × Range)) : Prop where
  distinct : (pool.blocks.map MemoryBlock.memory).Nodup
  fresh : ∀ block ∈ pool.blocks, block.memory < pool.nextMemory
  shared : ∀ block ∈ pool.blocks, block.ranges.Shared (heldIn holdings block.memory)
  size : ∀ block ∈ pool.blocks, block.ranges.size = block.size
  owned : ∀ held ∈ holdings, ∃ block ∈ pool.blocks, block.memory = held.1
  visible : ∀ block ∈ pool.blocks, block.location ≠ .device → block.mapped = true
  atom : ∀ block ∈ pool.blocks, block.mapped = true → block.hostCoherent = false →
    block.nonCoherentAtomSize = max allocator.nonCoherentAtomSize.toNat 1

def MemoryBlock.blank (block : MemoryBlock) : MemoryBlock := { block with ranges := RangeAllocator.new block.size }

namespace BlocksSound

variable {allocator : MemoryAllocator} {pool pool' : MemoryPool} {holdings holdings' : List (Nat × Range)}
  {block : MemoryBlock} {ranges : RangeAllocator} {range : Range} {memory : Nat}

theorem unique (h : BlocksSound allocator pool holdings) {a b : MemoryBlock} (ha : a ∈ pool.blocks) (hb : b ∈ pool.blocks)
    (hab : a.memory = b.memory) : a = b :=
  inj_on_of_nodup_map h.distinct ha hb hab

theorem mem_put (hblock : block ∈ pool.blocks) {b : MemoryBlock} : b ∈ (pool.put { block with ranges }).blocks ↔
      b = { block with ranges } ∨ (b ∈ pool.blocks ∧ b.memory ≠ block.memory) := by
  grind [MemoryPool.put]

section

variable (h : BlocksSound allocator pool holdings)
include h

theorem map_put {β : Type} (hblock : block ∈ pool.blocks) {f : MemoryBlock → β}
    (hf : f { block with ranges } = f block) : (pool.put { block with ranges }).blocks.map f = pool.blocks.map f := by
  grind [MemoryPool.put, map_congr_left, h.unique]

theorem of_perm (hperm : holdings.Perm holdings') : BlocksSound allocator pool holdings' :=
  { h with
    shared := fun block hblock => (h.shared block hblock).perm (heldIn_perm hperm block.memory)
    owned := fun held hheld => h.owned held (hperm.mem_iff.mpr hheld) }

theorem buffers (buffers : List Buffer) : BlocksSound allocator { pool with buffers := buffers } holdings :=
  ⟨h.distinct, h.fresh, h.shared, h.size, h.owned, h.visible, h.atom⟩

theorem put (hblock : block ∈ pool.blocks) (hsize : ranges.size = block.size)
    (hshared : ranges.Shared (heldIn holdings' block.memory))
    (hother : ∀ other, other ≠ block.memory → (heldIn holdings other).Perm (heldIn holdings' other))
    (howned : ∀ held ∈ holdings', ∃ b ∈ pool.blocks, b.memory = held.1) :
    BlocksSound allocator (pool.put { block with ranges }) holdings' := by
  have hmem : ∀ b, b ∈ (pool.put { block with ranges }).blocks ↔
      b = { block with ranges } ∨ (b ∈ pool.blocks ∧ b.memory ≠ block.memory) := fun _ => mem_put hblock
  have hnumbers : (pool.put { block with ranges }).blocks.map MemoryBlock.memory = pool.blocks.map MemoryBlock.memory :=
    h.map_put hblock rfl
  refine ⟨?_, fun b hb => ?_, fun b hb => ?_, fun b hb => ?_, fun held hheld => ?_, fun b hb => ?_, fun b hb => ?_⟩
  · rw [hnumbers]
    exact h.distinct
  · rcases (hmem b).mp hb with rfl | ⟨hb, -⟩
    · exact h.fresh block hblock
    · exact h.fresh b hb
  · rcases (hmem b).mp hb with rfl | ⟨hb, hne⟩
    · exact hshared
    · exact (h.shared b hb).perm (hother _ hne)
  · grind [h.size]
  · obtain ⟨b, hb, hheld⟩ := howned held hheld
    by_cases hne : b.memory = block.memory
    · exact ⟨_, (hmem _).mpr (.inl rfl), hne.symm.trans hheld⟩
    grind
  · grind [h.visible]
  grind -linarith [h.atom]

theorem allocate (hblock : block ∈ pool.blocks) {size alignment : Nat}
    (hsize : 0 < size) (ha : alignment < 2 ^ 64) (hrun : block.ranges.allocate size alignment = some (range, ranges)) :
    BlocksSound allocator (pool.put { block with ranges }) ((block.memory, range) :: holdings) := by
  obtain ⟨hshared, -, -, hkept⟩ := (h.shared block hblock).allocate hsize ha hrun
  grind [h.put, h.size, heldIn_cons_self, heldIn_cons_ne, h.owned]

/-- A range that is held goes back to its block, and none of the assertions fails. -/
theorem release (hperm : holdings.Perm ((memory, range) :: holdings')) :
    ∃ block ∈ pool.blocks, ∃ ranges, MemoryAllocator.release memory range pool = .ok () (pool.put { block with ranges }) ∧
      BlocksSound allocator (pool.put { block with ranges }) holdings' := by
  obtain ⟨block, hblock, rfl⟩ := h.owned (memory, range) (hperm.mem_iff.mpr mem_cons_self)
  have hheld := heldIn_perm hperm block.memory
  rw [heldIn_cons_self] at hheld
  obtain ⟨ranges, hrun, hshared, hkept⟩ := (h.shared block hblock).release hheld
  refine ⟨block, hblock, ranges, ?_, h.put hblock (hkept.trans (h.size block hblock)) hshared (fun other hne => ?_)
    fun held hmem => h.owned held (hperm.mem_iff.mpr (mem_cons_of_mem _ hmem))⟩
  · have hfind : pool.blocks.find? (fun b => b.memory = block.memory) = some block :=
      (Keyed.find?_key h.distinct).mpr ⟨hblock, rfl⟩
    have hgive : block.release range = some { block with ranges } := by
      rw [MemoryBlock.release, hrun]
      rfl
    simp only [MemoryAllocator.release, bind_run, get_run, hfind, hgive, expect_some, pure_run, set_run]
  · have hother := heldIn_perm hperm other
    rwa [heldIn_cons_ne range hne] at hother

theorem ext (h' : BlocksSound allocator pool' holdings)
    (hblank : pool.blocks.map MemoryBlock.blank = pool'.blocks.map MemoryBlock.blank) : pool.blocks = pool'.blocks := by
  have hlen : pool.blocks.length = pool'.blocks.length := by simpa using congrArg List.length hblank
  refine ext_getElem hlen fun i hi hi' => ?_
  have hi1 := getElem_mem hi
  have hi2 := getElem_mem hi'
  have heq : pool.blocks[i].blank = pool'.blocks[i].blank := by
    have := getElem_of_eq hblank (by simpa using hi)
    simpa using this
  generalize pool.blocks[i] = a at *
  generalize pool'.blocks[i] = b at *
  have hmemory : a.blank.memory = b.blank.memory := congrArg MemoryBlock.memory heq
  have hsize : a.blank.size = b.blank.size := congrArg MemoryBlock.size heq
  change a.memory = b.memory at hmemory
  have hshared := h.shared a hi1
  rw [hmemory] at hshared
  have hranges := hshared.ext (h'.shared b hi2) ((h.size a hi1).trans (hsize.trans (h'.size b hi2).symm))
  cases a
  cases b
  grind [MemoryBlock.blank]

end

end BlocksSound

end TensorDE.Renderer.Memory
