import TensorDE.Scene.RoundTrip

set_option linter.dupNamespace false

namespace TensorDE.Scene

open Bytes Codec Effect Cursor Maps Decoder List

/-- A decoder has gone on from `s` to `t` and is still inside its bytes. -/
structure Within (s t : Cursor Labels) : Prop where
  context : t.context = s.context
  data : t.data = s.data
  le : s.offset ≤ t.offset
  bound : t.offset ≤ t.data.length

/-- From inside its bytes the decoder comes back without a panic, and stays inside. -/
class Bounded {α : Type} (m : Decoder α) : Prop where
  run : ∀ s, s.offset ≤ s.data.length → Returns (fun _ t => Within s t) (fun _ _ => True) (m s)

section Bounded

-- the longest record has a hundred fields
set_option synthInstance.maxSize 1024

variable {α β : Type}

theorem Within.trans {s t u : Cursor Labels} (h : Within s t) (h' : Within t u) : Within s u :=
  ⟨h'.context.trans h.context, h'.data.trans h.data, h.le.trans h'.le, h'.bound⟩

instance (a : α) : Bounded (pure a) := ⟨fun _ hs => ⟨rfl, rfl, le_rfl, hs⟩⟩

instance (e : SceneBinaryError) : Bounded (fail e : Decoder α) := ⟨fun _ _ => trivial⟩

instance {m : Decoder α} {f : α → Decoder β} [Bounded m] [∀ a, Bounded (f a)] : Bounded (m >>= f) where
  run s hs := by
    refine Returns.bind (Bounded.run s hs) fun a t ht => ?_
    exact (Bounded.run t ht.bound).mono (fun _ _ h => ht.trans h) fun _ _ _ => trivial

instance {c : Prop} [Decidable c] {m m' : Decoder α} [Bounded m] [Bounded m'] : Bounded (if c then m else m') := by
  split <;> infer_instance

theorem bytes_returns (len : Nat) {s : Cursor Labels} (hs : s.offset ≤ s.data.length) :
    Returns (fun v t => Within s t ∧ v.length = len) (fun _ _ => True) (bytes len s) := by
  simp only [bytes, bind_run, get_run]
  cases hadd : checkedAdd s.offset len with
  | none => trivial
  | some stop =>
    obtain rfl : s.offset + len = stop := by
      grind [checkedAdd]
    dsimp only
    split
    · rename_i hle
      have hrange : s.offset ≤ s.offset + len ∧ s.offset + len ≤ s.data.length := ⟨Nat.le_add_right _ _, hle⟩
      simp only [slice, if_pos hrange]
      refine ⟨⟨rfl, rfl, Nat.le_add_right _ _, hle⟩, ?_⟩
      grind
    · trivial

instance (len : Nat) : Bounded (bytes len) where
  run _ hs := (bytes_returns len hs).mono (fun _ _ h => h.1) fun _ _ _ => trivial

instance (width : Nat) : Bounded (word width) where
  run s hs := by
    refine Returns.bind (bytes_returns width hs) fun v t ht => ?_
    rw [if_pos ht.2]
    exact ht.1

instance : Bounded u32 := by unfold u32; infer_instance

instance : Bounded i32 := by unfold i32; infer_instance

instance : Bounded i64 := by unfold i64; infer_instance

instance : Bounded u64 := by unfold u64; infer_instance

instance : Bounded f32 := by unfold f32; infer_instance

instance : Bounded (get : Decoder (Cursor Labels)) := ⟨fun _ hs => ⟨rfl, rfl, le_rfl, hs⟩⟩

instance : Bounded bool where
  run s hs := by
    refine Returns.bind (Bounded.run s hs) fun v t ht => ?_
    cases v.head? with
    | none => trivial
    | some byte => exact ht

instance : Bounded stringId := by unfold stringId; infer_instance

instance : Bounded resourceId := by unfold resourceId; infer_instance

instance : Bounded vec3 := by unfold vec3; infer_instance

instance : Bounded remaining := by unfold remaining; infer_instance

instance [Tag α] (name : String) (raw : UInt32) : Bounded (checkTag name raw : Decoder α) := by
  unfold checkTag
  split <;> infer_instance

instance [Tag α] (name : String) : Bounded (tag name : Decoder α) := by unfold tag; infer_instance

instance {m : Decoder α} [Bounded m] (count : Nat) : Bounded (items m count) := by
  induction count with
  | zero => rw [items]; infer_instance
  | succ count ih => rw [items]; infer_instance

instance {m : Decoder α} [Bounded m] (n : Nat) : Bounded (array m n) := by
  induction n with
  | zero => rw [array]; infer_instance
  | succ n ih => rw [array]; infer_instance

instance {record : Decoder α} [Bounded record] : Bounded (table record) := by unfold table; infer_instance

instance (count packedLow packedHigh : UInt32) : Bounded (checkInitializerOrder count packedLow packedHigh) := by
  unfold checkInitializerOrder
  split <;> infer_instance

instance : Bounded SceneUserPropertyPredicate.decode := by
  have h : ∀ kind value : UInt32, Bounded (match kind with
      | 1 =>
        if value = 0 then return .booleanValue
        else fail (.invalidChunkValue "user property boolean predicate payload" value)
      | 2 => return .stringEquals ⟨value⟩
      | value => fail (.invalidChunkValue "user property predicate" value) : Decoder SceneUserPropertyPredicate) := by
    intro kind value
    split <;> infer_instance
  unfold SceneUserPropertyPredicate.decode
  infer_instance

instance (bytes : Bytes) : Bounded (fromUtf8 bytes) := by
  unfold fromUtf8
  split <;> infer_instance

instance : Bounded decodeString := by
  unfold decodeString
  infer_instance

instance : Bounded decodeStringTable := by
  unfold decodeStringTable
  infer_instance

instance : Bounded decodeProject := by
  unfold decodeProject SceneProjectRecord.decode
  infer_instance

instance : Bounded decodeResources := by
  unfold decodeResources SceneResourceRecord.decode
  infer_instance

instance : Bounded decodeTextures := by
  unfold decodeTextures SceneTextureRecord.decode SceneTextureSequenceFrameRecord.decode
  infer_instance

instance : Bounded decodeTextureMips := by
  unfold decodeTextureMips SceneTextureMipRecord.decode
  infer_instance

instance : Bounded decodeSceneObjects := by
  unfold decodeSceneObjects SceneObjectRecord.decode SceneObjectEffectRecord.decode
  infer_instance

instance : Bounded decodeMaterials := by
  unfold decodeMaterials SceneMaterialRecord.decode SceneMaterialPassRecord.decode
    SceneMaterialTextureRecord.decode SceneMaterialConstantRecord.decode
  infer_instance

instance : Bounded decodeMeshes := by
  unfold decodeMeshes SceneMeshRecord.decode SceneMeshVertexRecord.decode SceneMeshSourceRecord.decode
    SceneMeshClippingSubdrawRecord.decode SceneMeshClippingSliceRecord.decode
  infer_instance

instance : Bounded decodePuppets := by
  unfold decodePuppets ScenePuppetRecord.decode ScenePuppetBoneRecord.decode ScenePuppetAttachmentRecord.decode
  infer_instance

instance : Bounded decodeParticles := by
  unfold decodeParticles SceneParticleSystemRecord.decode
  infer_instance

instance : Bounded decodeEffects := by
  unfold decodeEffects SceneEffectRecord.decode SceneEffectPassRecord.decode SceneEffectBindingRecord.decode
    SceneEffectComboRecord.decode SceneEffectFboRecord.decode
  infer_instance

instance : Bounded SceneObjectAnimationLayerRecord.decode := by
  unfold SceneObjectAnimationLayerRecord.decode
  infer_instance

instance : Bounded ScenePuppetAnimationClipRecord.decode := by
  unfold ScenePuppetAnimationClipRecord.decode
  infer_instance

instance : Bounded ScenePuppetAnimationTrackRecord.decode := by
  unfold ScenePuppetAnimationTrackRecord.decode
  infer_instance

instance : Bounded ScenePuppetAnimationTransformSampleRecord.decode := by
  unfold ScenePuppetAnimationTransformSampleRecord.decode
  infer_instance

instance : Bounded SceneObjectTransformTrackRecord.decode := by
  unfold SceneObjectTransformTrackRecord.decode
  infer_instance

instance : Bounded SceneObjectTransformChannelRecord.decode := by
  unfold SceneObjectTransformChannelRecord.decode
  infer_instance

instance : Bounded SceneObjectTransformKeyframeRecord.decode := by
  unfold SceneObjectTransformKeyframeRecord.decode
  infer_instance

instance : Bounded decodeTimelines := by
  unfold decodeTimelines
  dsimp only
  infer_instance

instance : Bounded decodeRenderGraphs := by
  unfold decodeRenderGraphs SceneRenderGraphRecord.decode SceneRenderPassRecord.decode
    SceneRenderBindingRecord.decode SceneUnsupportedRecord.decode
  infer_instance

instance : Bounded decodeImageTargets := by
  unfold decodeImageTargets SceneImageTargetRecord.decode
  infer_instance

instance : Bounded decodeShaderContracts := by
  unfold decodeShaderContracts SceneShaderContractRecord.decode
  infer_instance

instance : Bounded decodeShaderPrograms := by
  unfold decodeShaderPrograms SceneShaderProgramRecord.decode SceneShaderStageIoRecord.decode
    SceneShaderUniformBufferRecord.decode SceneShaderUniformMemberRecord.decode SceneShaderBindingRecord.decode
  infer_instance

instance : Bounded decodeScriptBindings := by
  unfold decodeScriptBindings SceneScriptProgramRecord.decode
  infer_instance

instance : Bounded decodeDynamicText := by
  unfold decodeDynamicText SceneDynamicTextRecord.decode SceneDynamicTextGlyphRecord.decode
  infer_instance

instance : Bounded decodeUserPropertyBindings := by
  unfold decodeUserPropertyBindings SceneUserPropertyBindingRecord.decode
  infer_instance

instance : Bounded decodePointerBindings := by
  unfold decodePointerBindings SceneCameraParallaxRecord.decode SceneObjectParallaxDepthRecord.decode
  infer_instance

end Bounded

variable (data : Bytes)

/-- The number that stands in `data` at `offset`. -/
def numberAt (offset width : Nat) : Nat := ofLe ((data.drop offset).take width)

structure ChunkEntry where
  kind : UInt32
  offset : Nat
  len : Nat
  itemCount : Nat

def entryAt (base : Nat) : ChunkEntry where
  kind := UInt32.ofNat (numberAt data base 4)
  offset := numberAt data (base + 8) 8
  len := numberAt data (base + 16) 8
  itemCount := numberAt data (base + 24) 4

def tableOffset : Nat := numberAt data 28 8

/-- The first `count` lines of the chunk table. -/
def entries (count : Nat) : List ChunkEntry :=
  (List.range count).map fun i => entryAt data (tableOffset data + i * chunkEntryLen)

def chunkEntries : List ChunkEntry := entries data (numberAt data 24 4)

def ChunkEntry.payload (entry : ChunkEntry) : Bytes := (data.drop entry.offset).take entry.len

/-- The chunk of this kind gave the value: all of its records were read from within the payload, and there
are as many as the table says. What the payload holds after them has not been looked at. -/
def Decoded {α : Type} (kind : UInt32) (labels : Labels) (decode : Decoder α) (value : α) (count : Nat) :
    Prop :=
  ∃ entry ∈ chunkEntries data, entry.kind = kind ∧ entry.itemCount = count ∧ ∃ stop ≤ entry.len,
    decode ⟨labels, entry.payload data, 0⟩ = .ok value ⟨labels, entry.payload data, stop⟩

section Table

variable {data : Bytes} {count : Nat} {chunks : Chunks}

variable {width : Nat}

theorem toNat_ofNat_numberAt (data : Bytes) (offset : Nat) (h : width ≤ 8) :
    (UInt64.ofNat (numberAt data offset width)).toNat = numberAt data offset width := by
  rw [UInt64.toNat_ofNat', Nat.mod_eq_of_lt]
  refine (ofLe_lt _).trans_le ?_
  calc
    256 ^ ((data.drop offset).take width).length ≤ 256 ^ 8 := by
      refine Nat.pow_le_pow_right (by decide) ?_
      rw [length_take]
      omega
    _ = 2 ^ 64 := by decide

theorem toNat_ofNat_numberAt' (data : Bytes) (offset : Nat) :
    (UInt32.ofNat (numberAt data offset 4)).toNat = numberAt data offset 4 := by
  rw [UInt32.toNat_ofNat', Nat.mod_eq_of_lt]
  refine (ofLe_lt _).trans_le ?_
  calc
    256 ^ ((data.drop offset).take 4).length ≤ 256 ^ 4 := by
      refine Nat.pow_le_pow_right (by decide) ?_
      rw [length_take]
      omega
    _ = 2 ^ 32 := by decide

variable {offset : Nat}

theorem readAt_inside (h : offset + width ≤ data.length) (hsize : offset + width < 2 ^ 64)
    (name : String) : readAt width data offset name = .ok (numberAt data offset width) := by
  have hlen : ((data.drop offset).take width).length = width := by
    rw [length_take, length_drop]
    omega
  rw [readAt, add_ok hsize, except_ok_bind, if_pos ⟨Nat.le_add_right _ _, h⟩, Nat.add_sub_cancel_left, if_pos hlen]
  rfl

theorem readU32At_inside (h : offset + 4 ≤ data.length) (hsize : offset + 4 < 2 ^ 64) (name : String) :
    readU32At data offset name = .ok (UInt32.ofNat (numberAt data offset 4)) := by
  rw [readU32At, readAt_inside h hsize]
  rfl

theorem readU64At_inside (h : offset + 8 ≤ data.length) (hsize : offset + 8 < 2 ^ 64) (name : String) :
    readU64At data offset name = .ok (UInt64.ofNat (numberAt data offset 8)) := by
  rw [readU64At, readAt_inside h hsize]
  rfl

/-- The chunks as read off the first `count` lines of the table. -/
structure TableRead (data : Bytes) (count : Nat) (chunks : Chunks) : Prop where
  inside : ∀ entry ∈ entries data count, entry.offset + entry.len ≤ data.length
  distinct : ((entries data count).map ChunkEntry.kind).Nodup
  find : ∀ kind chunk, chunks.find kind = some chunk ↔ ∃ entry ∈ entries data count, entry.kind = kind ∧
    chunk = ⟨entry.payload data, UInt32.ofNat entry.itemCount⟩

theorem entries_succ (data : Bytes) (count : Nat) :
    entries data (count + 1) = entries data count ++ [entryAt data (tableOffset data + count * chunkEntryLen)] := by
  simp [entries, range_succ]

theorem TableRead.snoc (h : TableRead data count chunks) {entry : ChunkEntry}
    (hentry : entryAt data (tableOffset data + count * chunkEntryLen) = entry)
    (hinside : entry.offset + entry.len ≤ data.length) (hnew : chunks.find entry.kind = none) :
    TableRead data (count + 1) (chunks.insert entry.kind ⟨entry.payload data, UInt32.ofNat entry.itemCount⟩) := by
  have hfresh : ∀ other ∈ entries data count, other.kind ≠ entry.kind := by
    intro other hmem heq
    have hfound := (h.find entry.kind _).mpr ⟨other, hmem, heq, rfl⟩
    rw [hnew] at hfound
    cases hfound
  have hsucc : entries data (count + 1) = entries data count ++ [entry] := by rw [entries_succ, hentry]
  refine ⟨?_, ?_, fun kind chunk => ?_⟩
  · grind +splitImp +splitIndPred
  · grind [h.distinct]
  grind [Map.find_insert, h.find]

theorem readEntry_ends (h : TableRead data count chunks)
    (hle : tableOffset data + (count + 1) * chunkEntryLen ≤ data.length)
    (hsize : tableOffset data + (count + 1) * chunkEntryLen < 2 ^ 64) :
    Ends (TableRead data (count + 1)) (readEntry data (tableOffset data) chunks count) := by
  rw [Nat.succ_mul, ← Nat.add_assoc] at hle hsize
  have hlen : chunkEntryLen = 32 := rfl
  generalize hentry : entryAt data (tableOffset data + count * chunkEntryLen) = entry
  have hbase : tableOffset data + count * chunkEntryLen + 32 ≤ data.length := by omega
  have hsize' : tableOffset data + count * chunkEntryLen + 32 < 2 ^ 64 := by omega
  generalize hstart : tableOffset data + count * chunkEntryLen = base at hbase hsize' hentry
  have hmul : mul count chunkEntryLen = .ok (count * chunkEntryLen) := mul_ok (by omega)
  have hadd : add (tableOffset data) (count * chunkEntryLen) = .ok base := hstart ▸ add_ok (by omega)
  have hadds : ∀ n ≤ 24, add base n = .ok (base + n) := fun n hn => add_ok (by omega)
  have hoffset : entry.offset = numberAt data (base + 8) 8 := hentry ▸ rfl
  have hlength : entry.len = numberAt data (base + 16) 8 := hentry ▸ rfl
  have hoffset' : (UInt64.ofNat entry.offset).toNat = entry.offset := hoffset ▸ toNat_ofNat_numberAt data _ le_rfl
  have hlength' : (UInt64.ofNat entry.len).toNat = entry.len := hlength ▸ toNat_ofNat_numberAt data _ le_rfl
  have hkind : entry.kind = UInt32.ofNat (numberAt data base 4) := hentry ▸ rfl
  have hcount : entry.itemCount = numberAt data (base + 24) 4 := hentry ▸ rfl
  simp only [readEntry, hmul, hadd, hadds _ (show 8 ≤ 24 by decide), hadds _ (show 16 ≤ 24 by decide),
    hadds _ (show 24 ≤ 24 by decide), readU32At_inside (show base + 4 ≤ data.length by omega) (by omega),
    readU64At_inside (show base + 8 + 8 ≤ data.length by omega) (by omega),
    readU64At_inside (show base + 16 + 8 ≤ data.length by omega) (by omega),
    readU32At_inside (show base + 24 + 4 ≤ data.length by omega) (by omega), except_ok_bind, ← hoffset, ← hlength,
    ← hkind, ← hcount, hoffset', hlength']
  cases hchecked : checkedAdd entry.offset entry.len with
  | none => trivial
  | some stop =>
    obtain rfl : entry.offset + entry.len = stop := by
      grind [checkedAdd]
    simp only [okOr, except_ok_bind]
    split
    · trivial
    rename_i hinside
    have hinside := Nat.not_lt.mp hinside
    have hindex : index data entry.offset (entry.offset + entry.len) = .ok (entry.payload data) := by
      rw [index, if_pos ⟨Nat.le_add_right _ _, hinside⟩, Nat.add_sub_cancel_left]
      rfl
    rw [hindex, except_ok_bind]
    cases hfind : chunks.find entry.kind with
    | some other => trivial
    | none => exact h.snoc (by rw [hstart, hentry]) hinside hfind

theorem readEntries_ends (hle : tableOffset data + count * chunkEntryLen ≤ data.length)
    (hsize : tableOffset data + count * chunkEntryLen < 2 ^ 64) :
    Ends (TableRead data count) ((range count).foldlM (readEntry data (tableOffset data)) .empty) := by
  induction count with
  | zero => exact ⟨by simp [entries], by simp [entries], by simp [entries]⟩
  | succ count ih =>
    have hmul : (count + 1) * chunkEntryLen = count * chunkEntryLen + chunkEntryLen := Nat.succ_mul _ _
    rw [range_succ, foldlM_append]
    refine (ih (by omega) (by omega)).bind fun chunks hchunks => ?_
    refine (readEntry_ends hchunks hle hsize).bind fun chunks' hchunks' => ?_
    exact hchunks'

theorem validateRequiredChunks_ends (chunks : Chunks) :
    Ends (fun _ => ∀ kind ∈ requiredSceneChunks, (chunks.find kind).isSome) (validateRequiredChunks chunks) := by
  rw [validateRequiredChunks]
  generalize requiredSceneChunks = required
  induction required with
  | nil => exact fun kind hmem => absurd hmem not_mem_nil
  | cons kind required ih =>
    rw [forM_cons]
    split
    · grind
    · trivial

end Table

section Document

variable {α : Type} {data : Bytes} {chunks : Chunks} {decode : Decoder α} {kind : UInt32}

theorem chunkPayload_ends (h : TableRead data (numberAt data 24 4) chunks) (kind : UInt32) :
    Ends (fun payload => ∃ entry ∈ chunkEntries data, entry.kind = kind ∧ payload = entry.payload data ∧
      chunks.find kind = some ⟨payload, UInt32.ofNat entry.itemCount⟩) (chunkPayload chunks kind) := by
  rw [chunkPayload]
  cases hfind : chunks.find kind with
  | none => trivial
  | some chunk =>
    obtain ⟨entry, hmem, hkind, rfl⟩ := (h.find kind chunk).mp hfind
    exact ⟨entry, hmem, hkind, rfl, rfl⟩

theorem ensureChunkCount_ends {chunk : SceneDecodedChunk} (h : chunks.find kind = some chunk) (name : String) (count : Nat) :
    Ends (fun _ => chunk.itemCount.toNat = count) (ensureChunkCount chunks kind name count) := by
  rw [ensureChunkCount, h]
  change Ends _ (if chunk.itemCount.toNat = count then pure () else throw _ : Read Unit)
  split
  · assumption
  · trivial

theorem run_ends [Bounded decode] (labels : Labels) (payload : Bytes) :
    Ends (fun value => ∃ stop ≤ payload.length, decode ⟨labels, payload, 0⟩ = .ok value ⟨labels, payload, stop⟩)
      (decode.run labels payload) := by
  have h := Bounded.run (m := decode) ⟨labels, payload, 0⟩ (Nat.zero_le _)
  rw [run]
  cases hrun : decode ⟨labels, payload, 0⟩ with
  | ok value t =>
    obtain ⟨context, bytes, offset⟩ := t
    obtain ⟨rfl, rfl, _, hbound⟩ := h.of_ok hrun
    exact ⟨offset, hbound, rfl⟩
  | error e t =>
    cases e with
    | error e => trivial
    | panic | diverge =>
      rw [hrun] at h
      exact h

theorem ChunkEntry.length_payload (data : Bytes) (entry : ChunkEntry) : (entry.payload data).length ≤ entry.len := by
  rw [payload, length_take]
  omega

theorem itemCount_toNat {entry : ChunkEntry} (h : entry ∈ chunkEntries data) :
    (UInt32.ofNat entry.itemCount).toNat = entry.itemCount := by
  obtain ⟨i, _, rfl⟩ := mem_map.mp h
  exact toNat_ofNat_numberAt' data _

theorem readChunk_ends [Bounded decode] (h : TableRead data (numberAt data 24 4) chunks) (kind : UInt32) (labels : Labels)
    (name : String) (count : α → Nat) :
    Ends (fun value => Decoded data kind labels decode value (count value)) (readChunk chunks kind labels decode name count) := by
  refine (chunkPayload_ends h kind).bind ?_
  rintro _ ⟨entry, hmem, hkind, rfl, hfind⟩
  refine (run_ends labels _).bind ?_
  rintro value ⟨stop, hstop, hrun⟩
  refine (ensureChunkCount_ends hfind name (count value)).bind fun _ hcount => ?_
  rw [itemCount_toNat hmem] at hcount
  exact ⟨entry, hmem, hkind, hcount, stop, hstop.trans (entry.length_payload data), hrun⟩

variable {record : Decoder α} {s : Cursor Labels}

theorem items_returns [Bounded record] (count : Nat) (hs : s.offset ≤ s.data.length) :
    Returns (fun records t => Within s t ∧ records.length = count) (fun _ _ => True) (items record count s) := by
  induction count generalizing s with
  | zero => exact ⟨⟨rfl, rfl, le_rfl, hs⟩, rfl⟩
  | succ count ih =>
    refine Returns.bind (Bounded.run s hs) fun item t ht => ?_
    refine Returns.bind (ih ht.bound) fun rest u hu => ?_
    exact ⟨ht.trans hu.1, by simp [hu.2]⟩

theorem table_returns [Bounded record] (hs : s.offset ≤ s.data.length) :
    Returns (fun records t => Within s t ∧ records.length < 2 ^ 32) (fun _ _ => True) (table record s) := by
  refine Returns.bind (Bounded.run s hs) fun number t ht => ?_
  refine (items_returns number.toNat ht.bound).mono (fun records u hu => ?_) fun _ _ _ => trivial
  exact ⟨ht.trans hu.1, hu.2 ▸ number.toNat_lt⟩

theorem decodeTimelines_returns (hs : s.offset ≤ s.data.length) :
    Returns (fun records _ => records.objectAnimationLayers.length < 2 ^ 32 ∧ records.puppetAnimationClips.length < 2 ^ 32 ∧
      records.objectTransformTracks.length < 2 ^ 32) (fun _ _ => True) (decodeTimelines s) := by
  refine Returns.bind (table_returns hs) fun layers s ⟨hs, hlayers⟩ => ?_
  refine Returns.bind (table_returns hs.bound) fun clips s ⟨hs, hclips⟩ => ?_
  refine Returns.bind (table_returns hs.bound) fun tracks s ⟨hs, _⟩ => ?_
  refine Returns.bind (table_returns hs.bound) fun samples s ⟨hs, _⟩ => ?_
  refine Returns.bind (table_returns hs.bound) fun opacities s ⟨hs, _⟩ => ?_
  refine Returns.bind (Bounded.run s hs.bound) fun left s hs => ?_
  split
  · refine Returns.bind (table_returns hs.bound) fun objectTracks s ⟨hs, hobjects⟩ => ?_
    refine Returns.bind (table_returns hs.bound) fun channels s ⟨hs, _⟩ => ?_
    exact Returns.bind (table_returns hs.bound) fun keyframes s _ => ⟨hlayers, hclips, hobjects⟩
  · exact ⟨hlayers, hclips, Nat.two_pow_pos 32⟩

theorem readTimelines_ends (h : TableRead data (numberAt data 24 4) chunks) :
    Ends (fun records => Decoded data chunkTimeline timelineLabels decodeTimelines records
      (records.objectAnimationLayers.length + records.puppetAnimationClips.length + records.objectTransformTracks.length))
      (readTimelines chunks) := by
  refine (chunkPayload_ends h chunkTimeline).bind ?_
  rintro _ ⟨entry, hmem, hkind, rfl, hfind⟩
  refine (run_ends timelineLabels _).bind ?_
  rintro records ⟨stop, hstop, hrun⟩
  obtain ⟨hlayers, hclips, hobjects⟩ := (decodeTimelines_returns (Nat.zero_le _)).of_ok hrun
  rw [add_ok (by omega), except_ok_bind, add_ok (by omega), except_ok_bind]
  refine (ensureChunkCount_ends hfind _ _).bind fun _ hcount => ?_
  rw [itemCount_toNat hmem] at hcount
  exact ⟨entry, hmem, hkind, hcount, stop, hstop.trans (entry.length_payload data), hrun⟩

/-- A chunk that is taken as it stands: only its count is checked. -/
def Kept (data : Bytes) (kind : UInt32) (payload : Bytes) (count : Nat) : Prop :=
  ∃ entry ∈ chunkEntries data, entry.kind = kind ∧ entry.itemCount = count ∧ payload = entry.payload data

theorem kept_bind {β : Type} {P : β → Prop} {f : Bytes → Read β} (h : TableRead data (numberAt data 24 4) chunks)
    (kind : UInt32) (name : String) (count : Nat) (hf : ∀ payload, Kept data kind payload count → Ends P (f payload)) :
    Ends P (chunkPayload chunks kind >>= fun payload => ensureChunkCount chunks kind name count >>= fun _ => f payload) := by
  refine (chunkPayload_ends h kind).bind ?_
  rintro _ ⟨entry, hmem, hkind, rfl, hfind⟩
  refine (ensureChunkCount_ends hfind name count).bind fun _ hcount => ?_
  rw [itemCount_toNat hmem] at hcount
  exact hf _ ⟨entry, hmem, hkind, hcount, rfl⟩

theorem emptyChunk_ends (h : TableRead data (numberAt data 24 4) chunks) (kind : UInt32) (name : String) (count : Nat) :
    Ends (fun _ => ∃ payload, Kept data kind payload count) (ensureChunkCount chunks kind name count) := by
  cases hfind : chunks.find kind with
  | none =>
    rw [ensureChunkCount, hfind]
    trivial
  | some chunk =>
    obtain ⟨entry, hmem, hkind, rfl⟩ := (h.find kind chunk).mp hfind
    refine (ensureChunkCount_ends hfind name count).mono fun _ hcount => ?_
    rw [itemCount_toNat hmem] at hcount
    exact ⟨_, entry, hmem, hkind, hcount, rfl⟩

/-- What an accepted image has: every chunk lies inside it, no kind comes twice, all required ones are there, and
the document is what their records say. -/
structure Accepted (data : Bytes) (document : SceneBinaryDocument) : Prop where
  table : tableOffset data + numberAt data 24 4 * chunkEntryLen ≤ data.length
  inside : ∀ entry ∈ chunkEntries data, entry.offset + entry.len ≤ data.length
  distinct : ((chunkEntries data).map ChunkEntry.kind).Nodup
  required : requiredSceneChunks ⊆ (chunkEntries data).map ChunkEntry.kind
  strings : Decoded data chunkStringTable chunkLabels decodeStringTable document.strings document.strings.length
  project : Decoded data chunkProject chunkLabels decodeProject document.project 1
  resources : Decoded data chunkResource chunkLabels decodeResources document.resources document.resources.length
  resourcePayload : Kept data chunkResourcePayload document.resourcePayload document.resources.length
  textures : Decoded data chunkTexture chunkLabels decodeTextures (document.textures, document.textureSequenceFrames)
    document.textures.length
  textureMips : Decoded data chunkTextureMip chunkLabels decodeTextureMips document.textureMips document.textureMips.length
  texturePayload : Kept data chunkTexturePayload document.texturePayload document.textures.length
  objects : Decoded data chunkSceneObject chunkLabels decodeSceneObjects (document.objects, document.objectEffects)
    document.objects.length
  materials : Decoded data chunkMaterial chunkLabels decodeMaterials ⟨document.materials, document.materialPasses,
    document.materialTextures, document.materialConstants⟩ document.materials.length
  meshes : Decoded data chunkMesh chunkLabels decodeMeshes ⟨document.meshes, document.meshVertices,
    document.meshIndices, document.meshSourceRecords, document.meshClippingSubdraws,
    document.meshClippingSourceOrdinals, document.meshClippingSlices⟩ document.meshes.length
  puppets : Decoded data chunkPuppet chunkLabels decodePuppets ⟨document.puppets, document.puppetBones,
    document.puppetAttachments⟩ document.puppets.length
  particles : Decoded data chunkParticle chunkLabels decodeParticles document.particles document.particles.length
  effects : Decoded data chunkEffect chunkLabels decodeEffects ⟨document.effects, document.effectPasses,
    document.effectBindings, document.effectCombos, document.effectFbos⟩ document.effects.length
  timelines : Decoded data chunkTimeline timelineLabels decodeTimelines ⟨document.objectAnimationLayers,
    document.puppetAnimationClips, document.puppetAnimationTracks, document.puppetAnimationTransformSamples,
    document.puppetAnimationOpacitySamples, document.objectTransformTracks, document.objectTransformChannels,
    document.objectTransformKeyframes⟩ (document.objectAnimationLayers.length + document.puppetAnimationClips.length +
      document.objectTransformTracks.length)
  renderGraphs : Decoded data chunkRenderGraph chunkLabels decodeRenderGraphs ⟨document.renderGraphs,
    document.renderPasses, document.renderBindings, document.unsupported⟩ document.renderGraphs.length
  imageTargets : Decoded data chunkImageTarget chunkLabels decodeImageTargets document.imageTargets
    document.imageTargets.length
  shaderContracts : Decoded data chunkShaderContract chunkLabels decodeShaderContracts (document.shaderContracts,
    document.shaderConstantNames) document.shaderContracts.length
  shaderPrograms : Decoded data chunkShaderProgram chunkLabels decodeShaderPrograms ⟨document.shaderPrograms,
    document.shaderStageIo, document.shaderUniformBuffers, document.shaderUniformMembers, document.shaderBindings,
    document.shaderSpirv⟩ document.shaderPrograms.length
  scriptPrograms : Decoded data chunkScriptBinding chunkLabels decodeScriptBindings document.scriptPrograms
    document.scriptPrograms.length
  dynamicTexts : Decoded data chunkDynamicText chunkLabels decodeDynamicText (document.dynamicTexts,
    document.dynamicTextGlyphs) document.dynamicTexts.length
  userPropertyBindings : Decoded data chunkUserPropertyBinding chunkLabels decodeUserPropertyBindings
    document.userPropertyBindings document.userPropertyBindings.length
  audio : ∃ payload, Kept data chunkAudio payload 0
  pointerBindings : Decoded data chunkPointerBinding chunkLabels decodePointerBindings (document.cameraParallax,
    document.objectParallaxDepths) document.objectParallaxDepths.length

theorem decodeChunks_ends (h : TableRead data (numberAt data 24 4) chunks)
    (htable : tableOffset data + numberAt data 24 4 * chunkEntryLen ≤ data.length)
    (hrequired : ∀ kind ∈ requiredSceneChunks, (chunks.find kind).isSome) (featureFlags : UInt64) :
    Ends (Accepted data) (decodeChunks chunks featureFlags) := by
  have hkinds : requiredSceneChunks ⊆ (chunkEntries data).map ChunkEntry.kind := by
    intro kind hmem
    obtain ⟨chunk, hfind⟩ := Option.isSome_iff_exists.mp (hrequired kind hmem)
    obtain ⟨entry, hentry, hkind, _⟩ := (h.find kind chunk).mp hfind
    exact mem_map.mpr ⟨entry, hentry, hkind⟩
  refine (readChunk_ends h _ _ _ _).bind fun strings hstrings => ?_
  refine (readChunk_ends h _ _ _ _).bind fun project hproject => ?_
  refine (readChunk_ends h _ _ _ _).bind fun resources hresources => ?_
  refine kept_bind h _ _ _ fun resourcePayload hresourcePayload => ?_
  refine (readChunk_ends h _ _ _ _).bind fun textures htextures => ?_
  refine (readChunk_ends h _ _ _ _).bind fun textureMips htextureMips => ?_
  refine kept_bind h _ _ _ fun texturePayload htexturePayload => ?_
  refine (readChunk_ends h _ _ _ _).bind fun objects hobjects => ?_
  refine (readChunk_ends h _ _ _ _).bind fun material hmaterial => ?_
  refine (readChunk_ends h _ _ _ _).bind fun mesh hmesh => ?_
  refine (readChunk_ends h _ _ _ _).bind fun puppet hpuppet => ?_
  refine (readChunk_ends h _ _ _ _).bind fun particles hparticles => ?_
  refine (readChunk_ends h _ _ _ _).bind fun effect heffect => ?_
  refine (readTimelines_ends h).bind fun timeline htimeline => ?_
  refine (readChunk_ends h _ _ _ _).bind fun renderGraph hrenderGraph => ?_
  refine (readChunk_ends h _ _ _ _).bind fun imageTargets himageTargets => ?_
  refine (readChunk_ends h _ _ _ _).bind fun contracts hcontracts => ?_
  refine (readChunk_ends h _ _ _ _).bind fun shader hshader => ?_
  refine (readChunk_ends h _ _ _ _).bind fun scripts hscripts => ?_
  refine (readChunk_ends h _ _ _ _).bind fun texts htexts => ?_
  refine (readChunk_ends h _ _ _ _).bind fun properties hproperties => ?_
  refine (emptyChunk_ends h _ _ _).bind fun _ haudio => ?_
  refine (readChunk_ends h _ _ _ _).bind fun pointers hpointers => ?_
  exact {
    table := htable, inside := h.inside, distinct := h.distinct, required := hkinds
    strings := hstrings, project := hproject, resources := hresources, resourcePayload := hresourcePayload
    textures := htextures, textureMips := htextureMips, texturePayload := htexturePayload, objects := hobjects
    materials := hmaterial, meshes := hmesh, puppets := hpuppet, particles := hparticles, effects := heffect
    timelines := htimeline, renderGraphs := hrenderGraph, imageTargets := himageTargets
    shaderContracts := hcontracts, shaderPrograms := hshader, scriptPrograms := hscripts, dynamicTexts := htexts
    userPropertyBindings := hproperties, audio := haudio, pointerBindings := hpointers }

/-- The reader comes back for every image, with no index out of range and no overflow, and accepts only images
with a sound chunk table whose records are all there. -/
theorem readSceneBinaryBytes_ends (data : Bytes) : Ends (Accepted data) (readSceneBinaryBytes data) := by
  rw [readSceneBinaryBytes]
  split
  · trivial
  rename_i hlen
  have hlen : 36 ≤ data.length := Nat.not_lt.mp hlen
  have hmagic : index data 0 8 = .ok (data.take 8) := by
    rw [index, if_pos ⟨Nat.zero_le 8, by omega⟩]
    rfl
  have hendian : data[12]? = some data[12] := getElem?_eq_getElem (by omega)
  rw [hmagic, except_ok_bind]
  split
  · trivial
  rw [readU32At_inside (by omega) (by omega), except_ok_bind]
  split
  · trivial
  rw [hendian, okOr, except_ok_bind]
  split
  · trivial
  rw [readU64At_inside (by omega) (by omega), except_ok_bind, readU32At_inside (by omega) (by omega), except_ok_bind,
    readU64At_inside (by omega) (by omega), except_ok_bind, toNat_ofNat_numberAt', toNat_ofNat_numberAt _ _ le_rfl]
  cases hmul : checkedMul (numberAt data 24 4) chunkEntryLen with
  | none => trivial
  | some tableLen =>
    obtain rfl : numberAt data 24 4 * chunkEntryLen = tableLen := by
      grind [checkedMul]
    rw [okOr, except_ok_bind]
    cases hadd : checkedAdd (numberAt data 28 8) (numberAt data 24 4 * chunkEntryLen) with
    | none => trivial
    | some stop =>
      obtain ⟨hsize, rfl⟩ : numberAt data 28 8 + numberAt data 24 4 * chunkEntryLen < 2 ^ 64 ∧
          numberAt data 28 8 + numberAt data 24 4 * chunkEntryLen = stop := by
        grind [checkedAdd]
      rw [okOr, except_ok_bind]
      split
      · trivial
      rename_i hinside
      have htable := Nat.not_lt.mp hinside
      refine (readEntries_ends htable hsize).bind fun chunks hchunks => ?_
      refine (validateRequiredChunks_ends chunks).bind fun _ hrequired => ?_
      exact decodeChunks_ends hchunks htable hrequired _

end Document

/-- The chunks of an empty document, with a byte after the strings. -/
def paddedChunks : List SceneEncodedChunk :=
  ((encodeChunks {}).toOption.getD []).map fun chunk =>
    if chunk.kind = chunkStringTable then { chunk with data := chunk.data ++ [0] } else chunk

def paddedImage : Bytes :=
  putHeader sceneDefaultFeatureFlags (UInt32.ofNat paddedChunks.length) ++
    (writeEntries paddedChunks (headerLen + paddedChunks.length * chunkEntryLen)).toOption.getD [] ++
    paddedChunks.flatMap (·.data)

def paddedEntry : ChunkEntry := entryAt paddedImage (tableOffset paddedImage)

def stopOf {α : Type} (decode : Decoder α) (payload : Bytes) : Nat :=
  match decode ⟨chunkLabels, payload, 0⟩ with
  | .ok _ t => t.offset
  | .error _ t => t.offset

theorem decodeChunks_congr {chunks chunks' : Chunks} (h : ∀ kind, chunks.find kind = chunks'.find kind)
    (featureFlags : UInt64) : decodeChunks chunks featureFlags = decodeChunks chunks' featureFlags := by
  simp only [decodeChunks, readChunk, readTimelines, chunkPayload, ensureChunkCount, h]

def chunkMap (encoded : List SceneEncodedChunk) : Chunks :=
  encoded.foldl (fun chunks chunk => chunks.insert chunk.kind ⟨chunk.data, chunk.itemCount⟩) .empty

theorem chunkMap_find {encoded : List SceneEncodedChunk} (hnodup : (encoded.map (·.kind)).Nodup) :
    (∀ chunk ∈ encoded, (chunkMap encoded).find chunk.kind = some ⟨chunk.data, chunk.itemCount⟩) ∧
      ∀ kind ∉ encoded.map (·.kind), (chunkMap encoded).find kind = none := by
  induction encoded using reverseRecOn with
  | nil => exact ⟨by simp, fun kind _ => Map.find_empty kind⟩
  | append_singleton encoded last ih =>
    simp only [map_append, map_cons, map_nil, nodup_append, mem_singleton] at hnodup
    obtain ⟨hmem, hother⟩ := ih hnodup.1
    have hlast : last.kind ∉ encoded.map (·.kind) := fun h => hnodup.2.2 _ h _ rfl rfl
    rw [chunkMap, foldl_append, ← chunkMap, foldl_cons, foldl_nil]
    constructor
    · intro chunk hchunk
      rw [Map.find_insert]
      obtain hchunk | hchunk := mem_append.mp hchunk
      · have hne : chunk.kind ≠ last.kind := by
          intro heq
          exact hlast (heq ▸ mem_map_of_mem hchunk)
        rw [if_neg hne]
        exact hmem chunk hchunk
      · obtain rfl := mem_singleton.mp hchunk
        exact if_pos rfl
    · intro kind hkind
      simp only [map_append, map_cons, map_nil, mem_append, mem_singleton, not_or] at hkind
      rw [Map.find_insert, if_neg hkind.2]
      exact hother kind hkind.1

theorem readSceneBinaryBytes_padded :
    readSceneBinaryBytes paddedImage = decodeChunks (chunkMap paddedChunks) sceneDefaultFeatureFlags := by
  have hkinds : paddedChunks.map (·.kind) = writtenKinds := by decide +kernel
  have hsize : imageLen paddedChunks < 2 ^ 64 := by decide +kernel
  have hnodup : (paddedChunks.map (·.kind)).Nodup := hkinds ▸ writtenKinds_nodup
  obtain ⟨chunks, hfind, hother, hread⟩ := readSceneBinaryBytes_image sceneDefaultFeatureFlags
    (by decide) hsize hnodup (hkinds ▸ requiredSceneChunks_subset)
  rw [paddedImage, writeEntries_ok hsize]
  refine hread.trans (decodeChunks_congr (fun kind => ?_) _)
  grind [chunkMap_find]

/-- The image is accepted, although its string table ends before its payload does. -/
theorem paddedImage_accepted : ∃ document, readSceneBinaryBytes paddedImage = .ok document ∧
    ∃ entry ∈ chunkEntries paddedImage, entry.kind = chunkStringTable ∧ ∀ value,
      decodeStringTable ⟨chunkLabels, entry.payload paddedImage, 0⟩ ≠
        .ok value ⟨chunkLabels, entry.payload paddedImage, entry.len⟩ := by
  have hok : (readSceneBinaryBytes paddedImage).isOk = true := by
    rw [readSceneBinaryBytes_padded]
    decide +kernel
  have hcount : 0 < numberAt paddedImage 24 4 := by decide +kernel
  have hkind : paddedEntry.kind = chunkStringTable := by decide +kernel
  have hlen : paddedEntry.len = 5 := by decide +kernel
  have hstop : stopOf decodeStringTable (paddedEntry.payload paddedImage) = 4 := by decide +kernel
  have hmem : paddedEntry ∈ chunkEntries paddedImage := by
    refine mem_map.mpr ⟨0, mem_range.mpr hcount, ?_⟩
    rw [Nat.zero_mul, Nat.add_zero]
    rfl
  cases hread : readSceneBinaryBytes paddedImage with
  | error e =>
    rw [hread] at hok
    cases hok
  | ok document => grind [stopOf]

end TensorDE.Scene
