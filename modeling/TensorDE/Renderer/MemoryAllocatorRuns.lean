import TensorDE.Renderer.MemoryAllocatorBlocks

set_option linter.dupNamespace false

namespace TensorDE.Renderer.Memory

open Effect Ranges Range Trace List

namespace MemoryPool

variable (pool : MemoryPool)

def holdings : List (Nat × Range) := pool.buffers.map fun buffer => (buffer.block, buffer.range)

def live (block : MemoryBlock) : List Range := heldIn pool.holdings block.memory

variable (pool : MemoryPool) (block : MemoryBlock)

@[simp] theorem put_buffers : (pool.put block).buffers = pool.buffers := rfl

@[simp] theorem put_holdings : (pool.put block).holdings = pool.holdings := rfl

variable {pool : MemoryPool} {block : MemoryBlock}

theorem live_eq_nil : pool.live block = [] ↔ ∀ buffer ∈ pool.buffers, buffer.block ≠ block.memory := by
  simp [live, heldIn_eq_nil, holdings]

theorem strongCount_eq_one : pool.strongCount block = 1 ↔ pool.live block = [] := by
  rw [live_eq_nil, strongCount, Nat.add_eq_left, countP_eq_zero]
  simp

end MemoryPool

/-- A buffer's range is aligned as its driver asked and has room for its bytes, in a block for its kind of memory. -/
structure Buffer.Placed (pool : MemoryPool) (buffer : Buffer) : Prop where
  aligned : buffer.alignment ∣ buffer.range.start
  room : buffer.range.start + buffer.size.toNat ≤ buffer.range.stop
  home : ∃ block ∈ pool.blocks, block.memory = buffer.block ∧ block.location = buffer.memory

structure Sound (allocator : MemoryAllocator) (pool : MemoryPool) : Prop where
  blocks : BlocksSound allocator pool pool.holdings
  buffers : ∀ buffer ∈ pool.buffers, buffer.Placed pool

namespace MemoryAllocator

variable {allocator : MemoryAllocator} {descriptor : BufferDescriptor} {driver : Driver} {s t : MemoryPool}
  {selection : MemoryPlan} {range : Range} {block : MemoryBlock} {memory : Nat}

def NoRoom (driver : Driver) (block : MemoryBlock) : Prop :=
  ∀ free ∈ block.ranges.free, ∀ start, free.start ≤ start → driver.alignment.toNat ∣ start →
    free.stop < start + driver.size.toNat

/-- Why a block is made: the buffer gets one of its own, or no block of its kind can take it. -/
def Needed (allocator : MemoryAllocator) (descriptor : BufferDescriptor) (driver : Driver) (blocks : List MemoryBlock)
    (memoryTypeIndex : Fin 32) : Prop :=
  allocator.dedicated driver = true ∨
    ∀ block ∈ blocks, block.compatible .buffer descriptor.memory memoryTypeIndex = true → NoRoom driver block

/-- The pool with the block that the range is cut from: one that was there, or a new one with all of it free. -/
inductive Prepared (allocator : MemoryAllocator) (descriptor : BufferDescriptor) (driver : Driver) (s : MemoryPool) :
    MemoryPool → Prop where
  | same : Prepared allocator descriptor driver s s
  | pushed {block : MemoryBlock} (hmemory : block.memory = s.nextMemory)
      (hranges : block.ranges = RangeAllocator.new block.size) (hpos : 0 < block.size) (hlimit : block.size < 2 ^ 64)
      (hvisible : block.location ≠ .device → block.mapped = true)
      (hatom : block.mapped = true → block.hostCoherent = false →
        block.nonCoherentAtomSize = max allocator.nonCoherentAtomSize.toNat 1)
      (hneeded : Needed allocator descriptor driver s.blocks block.memoryTypeIndex) :
      Prepared allocator descriptor driver s
        { s with blocks := s.blocks ++ [block], nextMemory := s.nextMemory + 1 }

theorem Prepared.buffers (h : Prepared allocator descriptor driver s t) : t.buffers = s.buffers := by
  cases h <;> rfl

theorem Prepared.subset (h : Prepared allocator descriptor driver s t) : ∀ block ∈ s.blocks, block ∈ t.blocks := by
  cases h with
  | same => exact fun _ hb => hb
  | pushed => exact fun _ hb => mem_append_left _ hb

variable {holdings : List (Nat × Range)}

theorem Prepared.sound (h : Prepared allocator descriptor driver s t)
    (hs : BlocksSound allocator s holdings) : BlocksSound allocator t holdings := by
  cases h with
  | same => exact hs
  | @pushed block hmemory hranges hpos hlimit hvisible hatom hneeded =>
    have hnone : heldIn holdings block.memory = [] := by
      rw [heldIn_eq_nil]
      intro held hheld heq
      obtain ⟨owner, howner, hnumber⟩ := hs.owned held hheld
      have hlt := hs.fresh owner howner
      omega
    have hmem : ∀ b, b ∈ s.blocks ++ [block] ↔ b ∈ s.blocks ∨ b = block := fun b => by simp
    refine ⟨?_, fun b hb => ?_, fun b hb => ?_, fun b hb => ?_, fun held hheld => ?_, fun b hb => ?_, fun b hb => ?_⟩
    · grind +splitImp +splitIndPred
    · grind +splitImp +splitIndPred
    · rcases (hmem b).mp hb with hb | rfl
      · exact hs.shared b hb
      · rw [hnone, hranges]
        exact .new hpos hlimit
    · rcases (hmem b).mp hb with hb | rfl
      · exact hs.size b hb
      · rw [hranges]
        rfl
    · grind -linarith [hs.owned]
    · grind -linarith [hs.visible]
    grind -linarith [hs.atom]

variable {ranges : RangeAllocator} {size alignment : Nat}

theorem allocate_none {live : List Range} (h : ranges.Shared live)
    (hpow : alignment.isPowerOfTwo) (ha : alignment < 2 ^ 64) (hrun : ranges.allocate size alignment = none) :
    ∀ free ∈ ranges.free, ∀ start, free.start ≤ start → alignment ∣ start → free.stop < start + size := by
  rw [RangeAllocator.allocate] at hrun
  split at hrun
  · rename_i hplace
    refine RangeAllocator.place_none hpow ha ?_ (fun r hr => ?_) hplace
    · refine h.gapped.imp_of_mem fun {a b} hamem _ hab => ?_
      have hne : a.start < a.stop := h.nonempty a (mem_append_left _ hamem)
      omega
    · exact (h.stop_le (mem_append_left _ hr)).trans_lt h.limit
  · cases hrun

variable {location : MemoryLocation} {memoryTypeIndex : Fin 32} {blocks : List MemoryBlock}

theorem allocatePooled_some {taken : MemoryBlock}
    (h : allocatePooled location memoryTypeIndex size alignment blocks = some (range, taken)) :
    ∃ block ∈ blocks, block.compatible .buffer location memoryTypeIndex = true ∧ ∃ ranges,
      block.ranges.allocate size alignment = some (range, ranges) ∧ taken = { block with ranges } := by
  induction blocks with
  | nil => cases h
  | cons first rest ih =>
    rw [allocatePooled] at h
    have hlater : allocatePooled location memoryTypeIndex size alignment rest = some (range, taken) →
        ∃ block ∈ first :: rest, block.compatible .buffer location memoryTypeIndex = true ∧ ∃ ranges,
          block.ranges.allocate size alignment = some (range, ranges) ∧ taken = { block with ranges } := by
      intro h
      obtain ⟨block, hblock, hrest⟩ := ih h
      exact ⟨block, mem_cons_of_mem _ hblock, hrest⟩
    split at h
    · rcases Option.or_eq_some_iff.mp h with hfirst | ⟨-, hrest⟩
      · grind -linarith [MemoryBlock.allocate, Option.map_eq_some_iff]
      · exact hlater hrest
    · exact hlater h

theorem allocatePooled_none (h : allocatePooled location memoryTypeIndex size alignment blocks = none) :
    ∀ block ∈ blocks, block.compatible .buffer location memoryTypeIndex = true →
      block.ranges.allocate size alignment = none := by
  induction blocks with
  | nil => simp
  | cons first rest ih => grind -linarith [allocatePooled, MemoryBlock.allocate, Option.map_eq_none_iff]

theorem alignUp_bounds {value alignment start : Nat} (ha : alignment < 2 ^ 64) (h : alignUp value alignment = some start) :
    value ≤ start ∧ start < 2 ^ 64 := by
  obtain ⟨hpow, hrun⟩ := RangeAllocator.alignUp_eq_some h
  refine ⟨(Align.alignUp_spec hpow ha hrun).1, ?_⟩
  rw [Align.alignUp, if_neg (Nat.pos_of_isPowerOfTwo hpow).ne'] at hrun
  obtain ⟨sum, hsum, rfl⟩ := Option.map_eq_some_iff.mp hrun
  simp only [checkedAdd, Option.ite_none_right_eq_some, Option.some.injEq] at hsum
  obtain ⟨hlt, rfl⟩ := hsum
  exact Nat.and_le_left.trans_lt hlt

/-- A call comes back where it started: with a value as `P` says, or with an error. -/
def Stays {α : Type} (P : α → Prop) (s : MemoryPool) (x : Call α) : Prop :=
  Returns (fun a t => P a ∧ t = s) (fun _ t => t = s) (x s)

variable {α : Type} {P : α → Prop}

theorem Stays.okOr {o : Option α} {e : Error} (h : ∀ a, o = some a → P a) : Stays P s (okOr o e : Call α) := by
  cases o with
  | none => exact rfl
  | some a => exact ⟨h a rfl, rfl⟩

theorem Stays.bind {α β : Type} {P : α → Prop} {Q : β → Prop} {x : Call α} {f : α → Call β} (hx : Stays P s x)
    (hf : ∀ a, P a → Stays Q s (f a)) : Stays Q s (x >>= f) := by
  refine Returns.bind hx ?_
  rintro a t ⟨ha, rfl⟩
  exact hf a ha

theorem blockSize_stays (s : MemoryPool) : Stays (fun size => driver.size.toNat ≤ size ∧ size < 2 ^ 64) s
      (allocator.blockSize descriptor driver selection) := by
  have ha := driver.alignment.toNat_lt
  refine Stays.bind (P := fun size => driver.size.toNat ≤ size ∧ size < 2 ^ 64) (Stays.okOr fun size hsize => ?_)
    fun desired hdesired => ?_
  · obtain ⟨hle, hlt⟩ := alignUp_bounds ha hsize
    grind
  · refine Stays.bind (P := fun _ => True) (Stays.okOr fun _ _ => trivial) fun heap _ => ?_
    by_cases hfits : desired ≤ heap.heapSize.toNat
    · rw [if_pos hfits]
      exact ⟨hdesired, rfl⟩
    · rw [if_neg hfits]
      exact Stays.okOr fun size hsize => alignUp_bounds ha hsize

structure NewBlock (allocator : MemoryAllocator) (descriptor : BufferDescriptor) (selection : MemoryPlan) (s : MemoryPool)
    (size : Nat) (block : MemoryBlock) : Prop where
  memory : block.memory = s.nextMemory
  size : block.size = size
  ranges : block.ranges = RangeAllocator.new block.size
  location : block.location = descriptor.memory
  memoryTypeIndex : block.memoryTypeIndex = selection.memoryTypeIndex
  visible : block.location ≠ .device → block.mapped = true
  atom : block.mapped = true → block.hostCoherent = false →
    block.nonCoherentAtomSize = max allocator.nonCoherentAtomSize.toNat 1

variable {requirements : AllocationRequirements}

theorem newBlock_stays {dedicated : Bool} (s : MemoryPool)
    (hplanned : MemoryTypeSelector.Planned requirements descriptor.memory selection)
    (hatom : requirements.nonCoherentAtomSize = allocator.nonCoherentAtomSize) :
    Stays (NewBlock allocator descriptor selection s size) s (newBlock descriptor driver selection size dedicated) := by
  refine Returns.step (get_run s) ?_
  cases driver.allocateMemory with
  | some source => exact rfl
  | none =>
    cases if selection.properties.hostVisible then driver.mapMemory else none with
    | some source => exact rfl
    | none =>
      refine ⟨⟨rfl, rfl, rfl, rfl, rfl, hplanned.visible, fun hvisible hcoherent => ?_⟩, rfl⟩
      grind -linarith [hplanned.atom]

/-- Where a creation gets to before it binds: refused, or with a range cut from a block. -/
def Reaches (allocator : MemoryAllocator) (descriptor : BufferDescriptor) (driver : Driver) (s : MemoryPool)
    (x : Call Unit) : Prop :=
  (∃ e, x s = .error (.error e) s) ∨
    ∃ q block ranges range, Prepared allocator descriptor driver s q ∧ block ∈ q.blocks ∧
      block.location = descriptor.memory ∧ 0 < driver.size.toNat ∧
      block.ranges.allocate driver.size.toNat driver.alignment.toNat = some (range, ranges) ∧
      x s = finishBuffer descriptor driver block.memory range (q.put { block with ranges })

theorem Reaches.of_eq {x y : Call Unit} (hrun : x s = y s) (h : Reaches allocator descriptor driver s y) :
    Reaches allocator descriptor driver s x := by
  rw [Reaches, hrun]
  exact h

theorem Reaches.of_stays {x : Call α} {f : α → Call Unit} (hx : Stays P s x)
    (hf : ∀ a, P a → Reaches allocator descriptor driver s (f a)) :
    Reaches allocator descriptor driver s (x >>= f) := by
  rcases Returns.cases hx with ⟨a, t, hrun, ha, rfl⟩ | ⟨e, t, hrun, rfl⟩
  · rcases hf a ha with ⟨e, he⟩ | ⟨q, block, ranges, range, hq, hblock, hlocation, hsize, hallocate, he⟩
    · exact .inl ⟨e, by rw [bind_run, hrun]; exact he⟩
    · exact .inr ⟨q, block, ranges, range, hq, hblock, hlocation, hsize, hallocate, by rw [bind_run, hrun]; exact he⟩
  · exact .inl ⟨e, by rw [bind_run, hrun]⟩

section

variable (h : BlocksSound allocator s s.holdings)
include h

theorem put_pushed (hmemory : block.memory = s.nextMemory)
    (ranges : RangeAllocator) :
    ({ s with blocks := s.blocks ++ [block], nextMemory := s.nextMemory + 1 } : MemoryPool).put { block with ranges } =
      { s with blocks := s.blocks ++ [{ block with ranges }], nextMemory := s.nextMemory + 1 } := by
  have hold : s.blocks.map (fun b => if b.memory = block.memory then { block with ranges } else b) = s.blocks := by
    conv_rhs => rw [← map_id s.blocks]
    apply map_congr_left
    intro b hb
    have hlt := h.fresh b hb
    exact if_neg (by omega)
  simp only [MemoryPool.put, map_append, map_cons, map_nil, if_pos, hold]

theorem bindNew_reaches (hplanned : MemoryTypeSelector.Planned requirements descriptor.memory selection)
    (hatom : requirements.nonCoherentAtomSize = allocator.nonCoherentAtomSize) (hsize : 0 < driver.size.toNat)
    (hneeded : Needed allocator descriptor driver s.blocks selection.memoryTypeIndex) :
    Reaches allocator descriptor driver s (allocator.bindNew descriptor driver selection) := by
  refine Reaches.of_stays (blockSize_stays s) fun size hfits => ?_
  refine Reaches.of_stays (newBlock_stays s hplanned hatom) fun block hnew => ?_
  cases hrun : block.ranges.allocate driver.size.toNat driver.alignment.toNat with
  | none =>
    refine .inl ⟨.validation "new memory block cannot satisfy allocation", ?_⟩
    rw [MemoryBlock.allocate, hrun, Option.map_none, bind_run, okOr_none, fail_run]
  | some found =>
    obtain ⟨range, ranges⟩ := found
    refine .inr ⟨_, block, ranges, range, .pushed hnew.memory hnew.ranges (hnew.size ▸ by omega) (hnew.size ▸ hfits.2)
      hnew.visible hnew.atom (hnew.memoryTypeIndex ▸ hneeded), by simp, hnew.location, hsize, hrun, ?_⟩
    rw [put_pushed h hnew.memory, MemoryBlock.allocate, hrun]
    rfl

theorem bindBuffer_reaches : Reaches allocator descriptor driver s (allocator.bindBuffer descriptor driver) := by
  rw [bindBuffer]
  cases hselect : allocator.selection descriptor driver with
  | error e => exact .inl ⟨_, rfl⟩
  | ok selection =>
    have hplanned := MemoryTypeSelector.select_ok hselect
    have ha := driver.alignment.toNat_lt
    cases hpooled : allocator.pooled descriptor driver selection s.blocks with
    | some found =>
      obtain ⟨range, taken⟩ := found
      have htaken := hpooled
      rw [pooled] at htaken
      split at htaken
      · cases htaken
      obtain ⟨block, hblock, hcompatible, ranges, hrun, rfl⟩ := allocatePooled_some htaken
      have hlocation : block.location = descriptor.memory := by
        simp only [MemoryBlock.compatible, Bool.and_eq_true, decide_eq_true_eq] at hcompatible
        exact hcompatible.1.2
      refine .inr ⟨s, block, ranges, range, .same, hblock, hlocation, hplanned.positive, hrun, ?_⟩
      simp only [bind_run, get_run, hpooled, set_run]
    | none =>
      have hneeded : Needed allocator descriptor driver s.blocks selection.memoryTypeIndex := by
        rw [pooled] at hpooled
        split at hpooled
        · exact .inl ‹_›
        · refine .inr fun block hblock hcompatible => ?_
          exact allocate_none (h.shared block hblock) hplanned.alignment ha
            (allocatePooled_none hpooled block hblock hcompatible)
      refine Reaches.of_eq ?_ (bindNew_reaches h hplanned rfl hplanned.positive hneeded)
      simp only [bind_run, get_run, hpooled]

theorem createBuffer_reaches : Reaches allocator descriptor driver s (allocator.createBuffer descriptor driver) := by
  rw [createBuffer]
  cases descriptor.validate with
  | some error => exact .inl ⟨_, rfl⟩
  | none =>
    cases driver.createBuffer with
    | some source => exact .inl ⟨_, rfl⟩
    | none => exact bindBuffer_reaches h

end

structure Made (descriptor : BufferDescriptor) (driver : Driver) (memory : Nat) (range : Range) (buffer : Buffer) : Prop where
  block : buffer.block = memory
  range : buffer.range = range
  size : buffer.size = descriptor.size
  memory : buffer.memory = descriptor.memory
  alignment : buffer.alignment = driver.alignment.toNat

/-- Binding ends with the buffer, or with its range given back. -/
theorem finishBuffer_run {p : MemoryPool} (h : BlocksSound allocator p ((memory, range) :: p.holdings)) :
    (∃ buffer, Made descriptor driver memory range buffer ∧
      finishBuffer descriptor driver memory range p = .ok () { p with buffers := p.buffers ++ [buffer] }) ∨
    ∃ e, ∃ block ∈ p.blocks, ∃ ranges,
      finishBuffer descriptor driver memory range p = .error (.error e) (p.put { block with ranges }) ∧
        BlocksSound allocator (p.put { block with ranges }) p.holdings := by
  obtain ⟨block, hblock, ranges, hrelease, hsound⟩ := h.release (List.Perm.refl _)
  have hback : ∀ e, (do
      release memory range
      fail e : Call Unit) p = .error (.error e) (p.put { block with ranges }) := by
    intro e
    rw [bind_run, hrelease]
    rfl
  rw [finishBuffer]
  cases driver.bindBufferMemory with
  | some source => exact .inr ⟨_, block, hblock, ranges, hback _, hsound⟩
  | none =>
    by_cases husage : BufferUsages.contains descriptor.usage BufferUsages.shaderDeviceAddress = true
    · by_cases haddress : driver.deviceAddress = 0
      · refine .inr ⟨.validation "SHADER_DEVICE_ADDRESS buffer returned a zero address", block, hblock, ranges, ?_, hsound⟩
        have hrun := hback (.validation "SHADER_DEVICE_ADDRESS buffer returned a zero address")
        rw [bind_run] at hrun
        simp only [bind_run, if_pos husage, if_pos haddress]
        exact hrun
      · refine .inl ⟨{
          block := memory, range, size := descriptor.size, usage := descriptor.usage, memory := descriptor.memory
          deviceAddress := some driver.deviceAddress, alignment := driver.alignment.toNat }, ⟨rfl, rfl, rfl, rfl, rfl⟩, ?_⟩
        simp only [if_pos husage, if_neg haddress]
        rfl
    · refine .inl ⟨{
        block := memory, range, size := descriptor.size, usage := descriptor.usage, memory := descriptor.memory
        deviceAddress := none, alignment := driver.alignment.toNat }, ⟨rfl, rfl, rfl, rfl, rfl⟩, ?_⟩
      simp only [if_neg husage]
      rfl

variable {buffer : Buffer}

theorem placed_of_subset {q : MemoryPool} (h : buffer.Placed s)
    (hsub : ∀ block ∈ s.blocks, block ∈ q.blocks) : buffer.Placed q := by
  obtain ⟨block, hblock, hhome⟩ := h.home
  exact ⟨h.aligned, h.room, block, hsub block hblock, hhome⟩

theorem placed_put (hs : BlocksSound allocator s holdings) (hblock : block ∈ s.blocks) (h : buffer.Placed s) :
    buffer.Placed (s.put { block with ranges }) := by
  obtain ⟨home, hhome, hnumber, hlocation⟩ := h.home
  refine ⟨h.aligned, h.room, ?_⟩
  by_cases hsame : home.memory = block.memory
  · obtain rfl := hs.unique hhome hblock hsame
    exact ⟨_, (BlocksSound.mem_put hblock).mpr (.inl rfl), hnumber, hlocation⟩
  grind [BlocksSound.mem_put]

/-- The three ways a creation can end: refused at once, failed with the range given back, or with one more buffer. -/
inductive Created (allocator : MemoryAllocator) (descriptor : BufferDescriptor) (driver : Driver) (s : MemoryPool) :
    Except Error Unit → MemoryPool → Prop where
  | refused (e : Error) : Created allocator descriptor driver s (.error e) s
  | failed {q t : MemoryPool} (e : Error) (hprepared : Prepared allocator descriptor driver s q) (hblocks : t.blocks = q.blocks)
      (hbuffers : t.buffers = s.buffers) (hsound : Sound allocator t) : Created allocator descriptor driver s (.error e) t
  | made {q t : MemoryPool} {block : MemoryBlock} {range : Range} {buffer : Buffer}
      (hprepared : Prepared allocator descriptor driver s q) (hblocks : t.blocks.map MemoryBlock.blank = q.blocks.map MemoryBlock.blank)
      (hblock : block ∈ q.blocks) (hmade : Made descriptor driver block.memory range buffer)
      (hrange : range.stop = range.start + driver.size.toNat) (hbuffers : t.buffers = s.buffers ++ [buffer])
      (hsound : Sound allocator t) : Created allocator descriptor driver s (.ok ()) t

/-- Vulkan reports at least the size of the buffer as the size it needs. -/
theorem createBuffer_run (h : Sound allocator s) (hfits : descriptor.size.toNat ≤ driver.size.toNat) :
    (∃ t, allocator.createBuffer descriptor driver s = .ok () t ∧ Created allocator descriptor driver s (.ok ()) t) ∨
      ∃ e t, allocator.createBuffer descriptor driver s = .error (.error e) t ∧
        Created allocator descriptor driver s (.error e) t := by
  rcases createBuffer_reaches h.blocks with ⟨e, hrun⟩ | ⟨q, block, ranges, range, hprepared, hblock, hlocation, hsize, hcut, hrun⟩
  · exact .inr ⟨e, s, hrun, .refused e⟩
  have hq := hprepared.sound h.blocks
  have hbuffers := hprepared.buffers
  have hholdings : q.holdings = s.holdings := congrArg (List.map _) hbuffers
  obtain ⟨-, hdvd, hstop, -⟩ := (hq.shared block hblock).allocate hsize driver.alignment.toNat_lt hcut
  have hpending := hq.allocate hblock hsize driver.alignment.toNat_lt hcut
  have hkept : ∀ buffer ∈ s.buffers, buffer.Placed (q.put { block with ranges }) := fun buffer hbuffer =>
    placed_put hq hblock (placed_of_subset (h.buffers buffer hbuffer) hprepared.subset)
  rw [← hholdings] at hpending
  rcases @finishBuffer_run allocator descriptor driver _ _ _ hpending with
    ⟨buffer, hmade, hfinish⟩ | ⟨e, last, hlast, back, hfinish, hsound⟩
  · have hafter : ({ q.put { block with ranges } with buffers := (q.put { block with ranges }).buffers ++ [buffer] } :
        MemoryPool).holdings = q.holdings ++ [(block.memory, range)] := by
      simp [MemoryPool.holdings, hmade.block, hmade.range]
    have hroom : buffer.Placed (q.put { block with ranges }) := by
      refine ⟨?_, ?_, _, (BlocksSound.mem_put hblock).mpr (.inl rfl), hmade.block.symm, hlocation.trans hmade.memory.symm⟩
      · rw [hmade.alignment, hmade.range]
        exact hdvd
      · rw [hmade.range, hmade.size, hstop]
        omega
    refine .inl ⟨_, hrun.trans hfinish, .made hprepared (hq.map_put hblock rfl) hblock hmade hstop
      (congrArg (· ++ [buffer]) hbuffers) ⟨?_, fun b hb => ?_⟩⟩
    · rw [hafter]
      exact (hpending.of_perm (perm_append_singleton _ _).symm).buffers _
    · rcases mem_append.mp hb with hb | hb
      · exact placed_of_subset (hkept b (hbuffers ▸ hb)) fun _ hmem => hmem
      grind [placed_of_subset]
  · have hblank : ((q.put { block with ranges }).put { last with ranges := back }).blocks.map MemoryBlock.blank =
        q.blocks.map MemoryBlock.blank := by
      rw [hpending.map_put hlast (show MemoryBlock.blank { last with ranges := back } = last.blank from rfl)]
      exact hq.map_put hblock rfl
    have hqsame : BlocksSound allocator q q.holdings := hholdings ▸ hq
    refine .inr ⟨e, _, hrun.trans hfinish, .failed e hprepared (hsound.ext hqsame hblank) hbuffers ⟨hsound, fun b hb => ?_⟩⟩
    exact placed_put hpending hlast (hkept b (hbuffers ▸ hb))

theorem dropBuffer_run (h : Sound allocator s) {index : Nat} (hindex : index < s.buffers.length) :
    ∃ t, dropBuffer index s = .ok () t ∧ t.buffers = s.buffers.eraseIdx index ∧
      t.blocks.map MemoryBlock.blank = s.blocks.map MemoryBlock.blank ∧ Sound allocator t := by
  have hget := getElem?_eq_getElem hindex
  have hperm : s.holdings.Perm ((s.buffers[index].block, s.buffers[index].range) ::
      (s.buffers.eraseIdx index).map fun buffer => (buffer.block, buffer.range)) :=
    (getElem_cons_eraseIdx_perm hindex).symm.map _
  obtain ⟨block, hblock, ranges, hrelease, hsound⟩ := h.blocks.release hperm
  refine ⟨{ s.put { block with ranges } with buffers := s.buffers.eraseIdx index }, ?_, rfl,
    h.blocks.map_put hblock rfl, hsound.buffers _, fun buffer hbuffer => ?_⟩
  · simp only [dropBuffer, bind_run, get_run, hget, hrelease, modify_run, MemoryPool.put_buffers]
  · exact placed_of_subset (placed_put h.blocks hblock (h.buffers buffer (mem_of_mem_eraseIdx hbuffer)))
      fun _ hmem => hmem

theorem isEmpty_run (h : BlocksSound allocator s s.holdings) (hblock : block ∈ s.blocks) :
    block.isEmpty = some (decide (s.live block = [])) := by
  have hshared := h.shared block hblock
  have hiff := hshared.available_eq_size
  rw [h.size block hblock] at hiff
  rw [MemoryBlock.isEmpty, hshared.available, Option.map_some]
  exact congrArg some (decide_eq_decide.mpr hiff)

/-- What `retain` leaves of the blocks it goes through. -/
structure Retained (pool : MemoryPool) (keys : List (MemoryClass × MemoryLocation × Fin 32)) (blocks kept : List MemoryBlock) :
    Prop where
  sublist : kept.Sublist blocks
  unused : ∀ block ∈ blocks, block ∉ kept → pool.live block = []
  pooled : ∀ block ∈ kept, pool.live block = [] → block.dedicated = false ∧ block.key ∉ keys
  single : ((kept.filter fun block => pool.live block = []).map MemoryBlock.key).Nodup

theorem retain_run {keys : List (MemoryClass × MemoryLocation × Fin 32)} {blocks : List MemoryBlock}
    (hempty : ∀ block ∈ blocks, block.isEmpty = some (decide (s.live block = []))) (t : MemoryPool) :
    ∃ kept, retain s keys blocks t = .ok kept t ∧ Retained s keys blocks kept := by
  induction blocks generalizing keys with
  | nil => exact ⟨[], rfl, List.Sublist.refl _, by simp, by simp, by simp⟩
  | cons block rest ih =>
    have hrest := fun b hb => hempty b (mem_cons_of_mem _ hb)
    by_cases hlive : s.live block = []
    · have hunused : inUse s block t = .ok false t := by
        rw [inUse, if_neg (not_not.mpr (MemoryPool.strongCount_eq_one.mpr hlive)), hempty block mem_cons_self, hlive]
        rfl
      by_cases hdrop : block.dedicated = true ∨ block.key ∈ keys
      · obtain ⟨kept, hrun, hkept⟩ := @ih keys hrest
        refine ⟨kept, ?_, hkept.sublist.cons block, fun b hb hgone => ?_, hkept.pooled, hkept.single⟩
        · rw [retain, bind_run, hunused]
          grind
        grind [hkept.unused]
      · obtain ⟨kept, hrun, hkept⟩ := @ih (keys ++ [block.key]) hrest
        refine ⟨block :: kept, ?_, hkept.sublist.cons_cons block, fun b hb hgone => ?_, fun b hb hb' => ?_, ?_⟩
        · rw [retain, bind_run, hunused]
          grind [map_run]
        · grind [hkept.unused]
        · grind [hkept.pooled]
        · rw [filter_cons_of_pos (by simpa using hlive), map_cons, nodup_cons]
          refine ⟨fun hmem => ?_, hkept.single⟩
          obtain ⟨b, hb, heq⟩ := mem_map.mp hmem
          obtain ⟨hb, hb'⟩ := mem_filter.mp hb
          exact (hkept.pooled b hb (by simpa using hb')).2 (by simp [heq])
    · have hused : inUse s block t = .ok true t := by
        rw [inUse, if_pos fun hcount => hlive (MemoryPool.strongCount_eq_one.mp hcount)]
        rfl
      obtain ⟨kept, hrun, hkept⟩ := @ih keys hrest
      refine ⟨block :: kept, ?_, hkept.sublist.cons_cons block, fun b hb hgone => ?_, fun b hb hb' => ?_, ?_⟩
      · rw [retain, bind_run, hused]
        simp only [if_true, map_run, hrun]
      · grind [hkept.unused]
      · grind [hkept.pooled]
      grind [hkept.single]

theorem trim_run (h : Sound allocator s) :
    ∃ kept, trim s = .ok (s.blocks.length - kept.length) { s with blocks := kept } ∧ Retained s [] s.blocks kept ∧
      Sound allocator { s with blocks := kept } := by
  obtain ⟨kept, hrun, hkept⟩ := @retain_run s [] s.blocks (fun block hblock => isEmpty_run h.blocks hblock) s
  have hmem : ∀ block ∈ kept, block ∈ s.blocks := fun block hblock => hkept.sublist.subset hblock
  -- A block with a buffer in it is among those that are kept.
  have hhome : ∀ buffer ∈ s.buffers, ∀ block ∈ s.blocks, block.memory = buffer.block → block ∈ kept := by
    intro buffer hbuffer block hblock heq
    by_contra hgone
    exact MemoryPool.live_eq_nil.mp (hkept.unused block hblock hgone) buffer hbuffer heq.symm
  refine ⟨kept, ?_, hkept, ⟨?_, ?_, ?_, ?_, ?_, ?_, ?_⟩, fun buffer hbuffer => ?_⟩
  · simp only [trim, bind_run, get_run, hrun, set_run, pure_run]
  · exact h.blocks.distinct.sublist (hkept.sublist.map _)
  · exact fun block hblock => h.blocks.fresh block (hmem block hblock)
  · exact fun block hblock => h.blocks.shared block (hmem block hblock)
  · grind [h.blocks.size]
  · intro held hheld
    obtain ⟨buffer, hbuffer, rfl⟩ := mem_map.mp hheld
    obtain ⟨block, hblock, hnumber, -⟩ := (h.buffers buffer hbuffer).home
    exact ⟨block, hhome buffer hbuffer block hblock hnumber, hnumber⟩
  · grind [h.blocks.visible]
  · grind -linarith [h.blocks.atom]
  · have hplaced := h.buffers buffer hbuffer
    obtain ⟨block, hblock, hnumber, hlocation⟩ := hplaced.home
    exact ⟨hplaced.aligned, hplaced.room, block, hhome buffer hbuffer block hblock hnumber, hnumber, hlocation⟩

end MemoryAllocator

def MappedMemoryRange.stop (block : MemoryBlock) (range : MappedMemoryRange) : Nat :=
  match range.size with
  | some size => range.offset + size
  | none => block.size

/-- A range for the driver: it has the bytes that were asked for, and both ends are where the device wants them. -/
structure Synchronizes (allocator : MemoryAllocator) (block : MemoryBlock) (start size : Nat) (range : MappedMemoryRange) :
    Prop where
  memory : range.memory = block.memory
  before : range.offset ≤ start
  after : start + size ≤ range.stop block
  inside : range.stop block ≤ block.size
  offset : max allocator.nonCoherentAtomSize.toNat 1 ∣ range.offset
  ends : max allocator.nonCoherentAtomSize.toNat 1 ∣ range.stop block ∨ range.stop block = block.size

/-- Whatever was handed to the driver since `log`. -/
def Synchronized (allocator : MemoryAllocator) (block : MemoryBlock) (start size : Nat) (log log' : List MappedMemoryRange) :
    Prop :=
  ∃ ranges, log' = log ++ ranges ∧ ∀ range ∈ ranges, Synchronizes allocator block start size range

section Access

variable {allocator : MemoryAllocator} {block : MemoryBlock} {start size : Nat} {log : List MappedMemoryRange}

theorem Synchronized.refl : Synchronized allocator block start size log log := ⟨[], by simp, by simp⟩

theorem mappedRange_returns : Returns (fun _ log' => log' = log) (fun _ log' => log' = log)
    (block.mappedRange start size log) := by
  refine Returns.ite (fun _ => rfl) fun _ => ?_
  cases checkedAdd start size with
  | none => exact rfl
  | some stop => exact Returns.ite (fun _ => rfl) fun _ => rfl

theorem flushOrInvalidate_returns (hatom : block.nonCoherentAtomSize = max allocator.nonCoherentAtomSize.toNat 1)
    (hstop : start + size ≤ block.size) (hlimit : block.size < 2 ^ 64) (operation : String) (answer : Option Int) :
    Returns (fun _ => Synchronized allocator block start size log) (fun _ => Synchronized allocator block start size log)
      (block.flushOrInvalidate start size operation answer log) := by
  have hlt : max allocator.nonCoherentAtomSize.toNat 1 < 2 ^ 64 := by
    have := allocator.nonCoherentAtomSize.toNat_lt
    omega
  rw [MemoryBlock.flushOrInvalidate.eq_def, hatom]
  generalize hgen : max allocator.nonCoherentAtomSize.toNat 1 = atom at *
  have hsum : checkedAdd start size = some (start + size) := if_pos (by omega)
  rw [hsum, Option.bind_some]
  cases halign : alignUp (start + size) atom with
  | none => exact Synchronized.refl
  | some stop =>
    obtain ⟨hpow, hup⟩ := RangeAllocator.alignUp_eq_some halign
    obtain ⟨hle, -, hdvd⟩ := Align.alignUp_spec hpow hlt hup
    have hdown : Align.alignDown start atom = start - start % atom := Align.clear_eq hpow hlt (by omega)
    have hdvd' : atom ∣ Align.alignDown start atom := hdown ▸ Nat.dvd_sub_mod start
    have hle' : Align.alignDown start atom ≤ start := Align.alignDown_le start atom
    have hrange : Synchronizes allocator block start size
        (block.synchronizedRange (Align.alignDown start atom) stop) := by
      rw [MemoryBlock.synchronizedRange]
      by_cases hfits : stop ≤ block.size
      · have hend : Align.alignDown start atom + (stop - Align.alignDown start atom) = stop := by omega
        rw [if_pos hfits]
        refine ⟨rfl, hle', ?_, ?_, hgen ▸ hdvd', .inl ?_⟩ <;> simp only [MappedMemoryRange.stop, hend]
        · exact hle
        · exact hfits
        · exact hgen ▸ hdvd
      · rw [if_neg hfits]
        exact ⟨rfl, hle', hstop, le_rfl, hgen ▸ hdvd', .inr rfl⟩
    have hlog : Synchronized allocator block start size log
        (log ++ [block.synchronizedRange (Align.alignDown start atom) stop]) :=
      ⟨_, rfl, fun range hmem => mem_singleton.mp hmem ▸ hrange⟩
    refine Returns.step (pure_run _ _) (Returns.step (modify_run _ _) ?_)
    cases answer with
    | none => exact hlog
    | some source => exact hlog

variable {pool : MemoryPool} {buffer : Buffer}

section

variable (h : Sound allocator pool)
include h

/-- A buffer's bytes are in its block, and a block the host uses has the device's atom unless it is coherent. -/
theorem Sound.inside (hbuffer : buffer ∈ pool.buffers) (hblock : block ∈ pool.blocks)
    (hown : block.memory = buffer.block) :
    buffer.range.start + buffer.size.toNat ≤ block.size ∧ block.size < 2 ^ 64 ∧ block.location = buffer.memory := by
  have hshared := h.blocks.shared block hblock
  have hlive : buffer.range ∈ heldIn pool.holdings block.memory := by
    simp only [heldIn, mem_map, mem_filter, MemoryPool.holdings]
    exact ⟨(buffer.block, buffer.range), ⟨⟨buffer, hbuffer, rfl⟩, by simp [hown]⟩, rfl⟩
  have hstop := hshared.stop_le (mem_append_right _ hlive)
  grind +splitImp +splitIndPred [h.blocks.unique]

theorem flush_returns (hblock : block ∈ pool.blocks) (hhost : block.location ≠ .device)
    (hstop : start + size ≤ block.size) (hlimit : block.size < 2 ^ 64) (operation : String) (answer : Option Int) :
    Returns (fun _ => Synchronized allocator block start size log) (fun _ => Synchronized allocator block start size log)
      ((if block.hostCoherent then pure () else block.flushOrInvalidate start size operation answer :
        MemoryBlock.Access Unit) log) := by
  refine Returns.ite (fun _ => Synchronized.refl) fun hcoherent => ?_
  grind +splitImp +splitIndPred [flushOrInvalidate_returns]

/-- Host access to a live buffer comes back, and what it flushes or invalidates is what the device can do. -/
theorem Sound.access (hbuffer : buffer ∈ pool.buffers) (hblock : block ∈ pool.blocks)
    (hown : block.memory = buffer.block) (offset size : UInt64) (answer : Option Int) (log : List MappedMemoryRange) :
    Returns (fun _ => Synchronized allocator block (buffer.range.start + offset.toNat) size.toNat log)
        (fun _ => Synchronized allocator block (buffer.range.start + offset.toNat) size.toNat log)
        (buffer.write block offset size answer log) ∧
      Returns (fun _ => Synchronized allocator block (buffer.range.start + offset.toNat) size.toNat log)
        (fun _ => Synchronized allocator block (buffer.range.start + offset.toNat) size.toNat log)
        (buffer.read block offset size answer log) := by
  obtain ⟨hroom, hlimit, hlocation⟩ := h.inside hbuffer hblock hown
  constructor
  · refine Returns.ite (fun _ => Synchronized.refl) fun hupload => ?_
    have hhost : block.location ≠ .device := by
      rw [hlocation, not_not.mp hupload]
      decide
    cases hsum : checkedAdd offset.toNat size.toNat with
    | none => exact Synchronized.refl
    | some stop =>
      simp only [checkedAdd, Option.ite_none_right_eq_some, Option.some.injEq] at hsum
      refine Returns.step (pure_run _ _) (Returns.ite (fun _ => Synchronized.refl) fun hfits => ?_)
      refine Returns.ite (fun _ => Synchronized.refl) fun _ => ?_
      have hadd : addUsize buffer.range.start offset.toNat log =
          (.ok (buffer.range.start + offset.toNat) log : EStateM.Result (Fault Error) _ _) := by
        rw [addUsize, checkedAdd, if_pos (by omega)]
        rfl
      refine Returns.step hadd (Returns.bind (mappedRange_returns.mono (fun _ _ => id) fun _ _ hlog => ?_) ?_)
      · exact hlog ▸ Synchronized.refl
      · rintro _ _ rfl
        exact flush_returns h hblock hhost (by omega) hlimit _ _
  · refine Returns.ite (fun _ => Synchronized.refl) fun hreadback => ?_
    have hhost : block.location ≠ .device := by
      rw [hlocation, not_not.mp hreadback]
      decide
    cases hsum : checkedAdd offset.toNat size.toNat with
    | none => exact Synchronized.refl
    | some stop =>
      simp only [checkedAdd, Option.ite_none_right_eq_some, Option.some.injEq] at hsum
      refine Returns.step (pure_run _ _) (Returns.ite (fun _ => Synchronized.refl) fun hfits => ?_)
      have hadd : addUsize buffer.range.start offset.toNat log =
          (.ok (buffer.range.start + offset.toNat) log : EStateM.Result (Fault Error) _ _) := by
        rw [addUsize, checkedAdd, if_pos (by omega)]
        rfl
      refine Returns.step hadd (Returns.bind (flush_returns h hblock hhost (by omega) hlimit _ _) fun _ log' hlog => ?_)
      exact mappedRange_returns.mono (fun _ _ heq => heq ▸ hlog) fun _ _ heq => heq ▸ hlog

end

end Access

namespace MemoryAllocator

/-- The calls on an allocator and what they answered. -/
inductive Event where
  | create (descriptor : BufferDescriptor) (driver : Driver) (result : Except Error Unit)
  | drop (index : Nat)
  | trim (count : Nat)

/-- Vulkan reports at least the size of a buffer as the size of the memory it needs. -/
inductive Step (allocator : MemoryAllocator) : MemoryPool → Event → MemoryPool → Prop where
  | created {s t descriptor driver} : descriptor.size.toNat ≤ driver.size.toNat →
      allocator.createBuffer descriptor driver s = .ok () t → Step allocator s (.create descriptor driver (.ok ())) t
  | createFailed {s t descriptor driver e} : descriptor.size.toNat ≤ driver.size.toNat →
      allocator.createBuffer descriptor driver s = .error (.error e) t →
      Step allocator s (.create descriptor driver (.error e)) t
  | dropped {s t index} : index < s.buffers.length → dropBuffer index s = .ok () t → Step allocator s (.drop index) t
  | trimmed {s t count} : trim s = .ok count t → Step allocator s (.trim count) t

/-- A block is shared out, byte by byte, among its free ranges and the ranges of the live buffers in it. -/
structure Partitioned (pool : MemoryPool) (block : MemoryBlock) : Prop where
  apart : (block.ranges.free ++ pool.live block).Pairwise Apart
  covers : ∀ x, (∃ r ∈ block.ranges.free ++ pool.live block, r.Holds x) ↔ x < block.size
  nonempty : ∀ r ∈ block.ranges.free ++ pool.live block, r.Nonempty
  gapped : Gapped block.ranges.free
  empty : block.isEmpty = some (decide (pool.live block = []))

variable (allocator : MemoryAllocator)

def Grown (descriptor : BufferDescriptor) (driver : Driver) (s t : MemoryPool) : Prop :=
  t.blocks.map MemoryBlock.blank = s.blocks.map MemoryBlock.blank ∨
    ∃ block : MemoryBlock, t.blocks.map MemoryBlock.blank = s.blocks.map MemoryBlock.blank ++ [block.blank] ∧
      Needed allocator descriptor driver s.blocks block.memoryTypeIndex

/-- What a single call owes its caller. -/
def Event.Honest (s t : MemoryPool) : Event → Prop
  | .create descriptor driver (.ok ()) => Grown allocator descriptor driver s t ∧
      ∃ buffer, t.buffers = s.buffers ++ [buffer] ∧ buffer.size = descriptor.size ∧
        buffer.alignment = driver.alignment.toNat ∧ buffer.range.stop = buffer.range.start + driver.size.toNat
  | .create descriptor driver (.error _) => Grown allocator descriptor driver s t ∧ t.buffers = s.buffers ∧
      (t.blocks = s.blocks ∨ ∃ block, t.blocks = s.blocks ++ [block] ∧ block.ranges = RangeAllocator.new block.size)
  | .drop index => t.buffers = s.buffers.eraseIdx index ∧
      t.blocks.map MemoryBlock.blank = s.blocks.map MemoryBlock.blank
  | .trim count => t.buffers = s.buffers ∧ Retained t [] s.blocks t.blocks ∧
      count = s.blocks.length - t.blocks.length

section Runs

variable {allocator : MemoryAllocator} {s t : MemoryPool} {descriptor : BufferDescriptor} {driver : Driver} {event : Event}
  {events : List Event}

theorem empty_sound : Sound allocator MemoryPool.empty where
  blocks := {
    distinct := nodup_nil
    fresh := fun _ h => by cases h
    shared := fun _ h => by cases h
    size := fun _ h => by cases h
    owned := fun _ h => by cases h
    visible := fun _ h => by cases h
    atom := fun _ h => by cases h }
  buffers := fun _ h => by cases h

theorem Created.ok (h : Created allocator descriptor driver s (.ok ()) t) :
    Sound allocator t ∧ Event.Honest allocator s t (.create descriptor driver (.ok ())) := by
  cases h with
  | made hprepared hblocks hblock hmade hrange hbuffers hsound =>
    refine ⟨hsound, ?_, _, hbuffers, hmade.size, hmade.alignment, hmade.range ▸ hrange⟩
    cases hprepared with
    | same => exact .inl hblocks
    | pushed hmemory hranges hpos hlimit hvisible hatom hneeded =>
      exact .inr ⟨_, by rw [hblocks, map_append, map_singleton], hneeded⟩

theorem Created.error {e : Error} (h : Created allocator descriptor driver s (.error e) t) (hs : Sound allocator s) :
    Sound allocator t ∧ Event.Honest allocator s t (.create descriptor driver (.error e)) := by
  cases h with
  | refused e => exact ⟨hs, .inl rfl, rfl, .inl rfl⟩
  | failed e hprepared hblocks hbuffers hsound =>
    refine ⟨hsound, ?_, hbuffers, ?_⟩
    · cases hprepared with
      | same => exact .inl (congrArg _ hblocks)
      | pushed hmemory hranges hpos hlimit hvisible hatom hneeded =>
        exact .inr ⟨_, by rw [hblocks, map_append, map_singleton], hneeded⟩
    grind +splitImp +splitIndPred

section

variable (h : Sound allocator s)
include h

theorem Step.sound (hs : Step allocator s event t) : Sound allocator t ∧ event.Honest allocator s t := by
  cases hs with
  | created hfits hrun =>
    rcases createBuffer_run h hfits with ⟨u, hu, hcreated⟩ | ⟨e, u, hu, hcreated⟩
    · grind [hcreated.ok]
    · rw [hrun] at hu
      cases hu
  | createFailed hfits hrun =>
    rcases createBuffer_run h hfits with ⟨u, hu, hcreated⟩ | ⟨e, u, hu, hcreated⟩
    · rw [hrun] at hu
      cases hu
    grind [hcreated.error]
  | dropped hindex hrun =>
    obtain ⟨u, hu, hbuffers, hblocks, hsound⟩ := dropBuffer_run h hindex
    rw [hrun] at hu
    cases hu
    exact ⟨hsound, hbuffers, hblocks⟩
  | trimmed hrun =>
    obtain ⟨kept, hu, hkept, hsound⟩ := trim_run h
    rw [hrun] at hu
    cases hu
    exact ⟨hsound, rfl, ⟨hkept.sublist, hkept.unused, hkept.pooled, hkept.single⟩, rfl⟩

theorem partitioned {block : MemoryBlock} (hblock : block ∈ s.blocks) : Partitioned s block := by
  have hshared := h.blocks.shared block hblock
  have honce := hshared.once
  rw [h.blocks.size block hblock] at honce
  refine ⟨pairwise_apart fun x => ?_, fun x => ?_, hshared.nonempty, hshared.gapped, isEmpty_run h.blocks hblock⟩
  · exact (honce x).le.trans (by split <;> omega)
  · rw [← cover_pos]
    change 0 < cover (block.ranges.free ++ heldIn s.holdings block.memory) x ↔ _
    rw [honce]
    split <;> omega

/-- No assertion fails, no sum overflows, and every call comes back. -/
theorem calls_return : (∀ descriptor driver, descriptor.size.toNat ≤ driver.size.toNat →
      ∃ result t, Step allocator s (.create descriptor driver result) t) ∧
    (∀ index, index < s.buffers.length → ∃ t, Step allocator s (.drop index) t) ∧
    ∃ count t, Step allocator s (.trim count) t := by
  refine ⟨fun descriptor driver hfits => ?_, fun index hindex => ?_, ?_⟩
  · rcases createBuffer_run h hfits with ⟨t, hrun, -⟩ | ⟨e, t, hrun, -⟩
    · exact ⟨_, t, .created hfits hrun⟩
    · exact ⟨_, t, .createFailed hfits hrun⟩
  · obtain ⟨t, hrun, -⟩ := dropBuffer_run h hindex
    exact ⟨t, .dropped hindex hrun⟩
  · obtain ⟨kept, hrun, -⟩ := trim_run h
    exact ⟨_, _, .trimmed hrun⟩

end

/-- Whatever is created, dropped and trimmed: the blocks stay shared out among the live buffers, each call keeps its
word and comes back, and host access flushes and invalidates what it should. -/
theorem memory_allocator_runs (hrun : Run (Step allocator) MemoryPool.empty events s) :
    (∀ block ∈ s.blocks, Partitioned s block) ∧
    (∀ buffer ∈ s.buffers, buffer.alignment ∣ buffer.range.start ∧ ∃ block ∈ s.blocks, block.memory = buffer.block) ∧
    ((∀ descriptor driver, descriptor.size.toNat ≤ driver.size.toNat →
        ∃ result t, Step allocator s (.create descriptor driver result) t) ∧
      (∀ index, index < s.buffers.length → ∃ t, Step allocator s (.drop index) t) ∧
      ∃ count t, Step allocator s (.trim count) t) ∧
    (∀ event t, Step allocator s event t → event.Honest allocator s t) ∧
    ∀ buffer ∈ s.buffers, ∀ block ∈ s.blocks, block.memory = buffer.block → ∀ offset size answer log,
      Returns (fun _ => Synchronized allocator block (buffer.range.start + offset.toNat) size.toNat log)
          (fun _ => Synchronized allocator block (buffer.range.start + offset.toNat) size.toNat log)
          (buffer.write block offset size answer log) ∧
        Returns (fun _ => Synchronized allocator block (buffer.range.start + offset.toNat) size.toNat log)
          (fun _ => Synchronized allocator block (buffer.range.start + offset.toNat) size.toNat log)
          (buffer.read block offset size answer log) := by
  have hsound : Sound allocator s := hrun.invariant (Q := fun _ => True) (fun _ _ _ h _ hs => (Step.sound h hs).1)
    empty_sound (by simp)
  refine ⟨fun block hblock => partitioned hsound hblock, fun buffer hbuffer => ?_, calls_return hsound,
    fun event t hs => (Step.sound hsound hs).2, fun buffer hbuffer block hblock hown => hsound.access hbuffer hblock hown⟩
  grind +splitImp +splitIndPred

/-- One host-visible memory type without coherence, atoms of 64 bytes, blocks of 1000. -/
def smallDevice : MemoryAllocator where
  memoryTypes := [⟨0, 0, ⟨false, true, false, false, false⟩, 4096⟩]
  nonCoherentAtomSize := 64
  config := ⟨1000, 1000, 1000, 1000, 2000⟩

def smallDriver : Driver := ⟨none, 100, 4, 1, false, false, none, none, none, 7⟩

theorem memory_allocator_runs_smallDevice : ∃ s block buffer, Run (Step smallDevice) MemoryPool.empty
      [.create ⟨90, 128, .upload⟩ smallDriver (.ok ())] s ∧ block ∈ s.blocks ∧ buffer ∈ s.buffers ∧
    Partitioned s block ∧ Returns (fun _ => Synchronized smallDevice block (buffer.range.start + 80) 10 [])
      (fun _ => Synchronized smallDevice block (buffer.range.start + 80) 10 []) (buffer.write block 80 10 none []) := by
  let block : MemoryBlock := ⟨0, 1000, .buffer, .upload, 0, false, 64, true, false, ⟨1000, [⟨100, 1000⟩]⟩⟩
  let buffer : Buffer := ⟨0, ⟨0, 100⟩, 90, 128, .upload, some 7, 4⟩
  have hcreate : smallDevice.createBuffer ⟨90, 128, .upload⟩ smallDriver MemoryPool.empty =
      .ok () ⟨[block], [buffer], 1⟩ := rfl
  have hrun : Run (Step smallDevice) MemoryPool.empty [.create ⟨90, 128, .upload⟩ smallDriver (.ok ())]
      ⟨[block], [buffer], 1⟩ := .cons (.created (by decide) hcreate) (.nil _)
  obtain ⟨hpart, -, -, -, haccess⟩ := memory_allocator_runs hrun
  exact ⟨_, block, buffer, hrun, mem_singleton_self _, mem_singleton_self _, hpart block (mem_singleton_self _),
    (haccess buffer (mem_singleton_self _) block (mem_singleton_self _) rfl 80 10 none []).1⟩

end Runs

end MemoryAllocator

end TensorDE.Renderer.Memory
