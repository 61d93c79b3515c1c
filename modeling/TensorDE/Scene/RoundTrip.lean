import TensorDE.Scene.Binary

set_option linter.dupNamespace false

namespace TensorDE.Scene

open Bytes Codec Effect Cursor Maps Decoder List

def imageLen (chunks : List SceneEncodedChunk) : Nat :=
  headerLen + chunks.length * chunkEntryLen + (chunks.flatMap (·.data)).length

/-- The counts of the tables and strings fit their `u32`, and the offsets of the image an address. -/
structure Fits (document : SceneBinaryDocument) : Prop where
  strings : document.strings.length < 2 ^ 32
  stringBytes : ∀ value ∈ document.strings, value.bytes.length < 2 ^ 32
  resources : document.resources.length < 2 ^ 32
  textures : document.textures.length < 2 ^ 32
  textureMips : document.textureMips.length < 2 ^ 32
  textureSequenceFrames : document.textureSequenceFrames.length < 2 ^ 32
  objects : document.objects.length < 2 ^ 32
  objectEffects : document.objectEffects.length < 2 ^ 32
  objectAnimationLayers : document.objectAnimationLayers.length < 2 ^ 32
  objectTransformTracks : document.objectTransformTracks.length < 2 ^ 32
  objectTransformChannels : document.objectTransformChannels.length < 2 ^ 32
  objectTransformKeyframes : document.objectTransformKeyframes.length < 2 ^ 32
  puppetAnimationClips : document.puppetAnimationClips.length < 2 ^ 32
  puppetAnimationTracks : document.puppetAnimationTracks.length < 2 ^ 32
  puppetAnimationTransformSamples : document.puppetAnimationTransformSamples.length < 2 ^ 32
  puppetAnimationOpacitySamples : document.puppetAnimationOpacitySamples.length < 2 ^ 32
  materials : document.materials.length < 2 ^ 32
  materialPasses : document.materialPasses.length < 2 ^ 32
  materialTextures : document.materialTextures.length < 2 ^ 32
  materialConstants : document.materialConstants.length < 2 ^ 32
  meshes : document.meshes.length < 2 ^ 32
  meshVertices : document.meshVertices.length < 2 ^ 32
  meshIndices : document.meshIndices.length < 2 ^ 32
  meshSourceRecords : document.meshSourceRecords.length < 2 ^ 32
  meshClippingSubdraws : document.meshClippingSubdraws.length < 2 ^ 32
  meshClippingSourceOrdinals : document.meshClippingSourceOrdinals.length < 2 ^ 32
  meshClippingSlices : document.meshClippingSlices.length < 2 ^ 32
  puppets : document.puppets.length < 2 ^ 32
  puppetBones : document.puppetBones.length < 2 ^ 32
  puppetAttachments : document.puppetAttachments.length < 2 ^ 32
  particles : document.particles.length < 2 ^ 32
  effects : document.effects.length < 2 ^ 32
  effectPasses : document.effectPasses.length < 2 ^ 32
  effectBindings : document.effectBindings.length < 2 ^ 32
  effectCombos : document.effectCombos.length < 2 ^ 32
  effectFbos : document.effectFbos.length < 2 ^ 32
  renderGraphs : document.renderGraphs.length < 2 ^ 32
  renderPasses : document.renderPasses.length < 2 ^ 32
  renderBindings : document.renderBindings.length < 2 ^ 32
  unsupported : document.unsupported.length < 2 ^ 32
  imageTargets : document.imageTargets.length < 2 ^ 32
  shaderContracts : document.shaderContracts.length < 2 ^ 32
  shaderConstantNames : document.shaderConstantNames.length < 2 ^ 32
  shaderPrograms : document.shaderPrograms.length < 2 ^ 32
  shaderBindings : document.shaderBindings.length < 2 ^ 32
  shaderStageIo : document.shaderStageIo.length < 2 ^ 32
  shaderUniformBuffers : document.shaderUniformBuffers.length < 2 ^ 32
  shaderUniformMembers : document.shaderUniformMembers.length < 2 ^ 32
  shaderSpirv : document.shaderSpirv.length < 2 ^ 32
  scriptPrograms : document.scriptPrograms.length < 2 ^ 32
  dynamicTexts : document.dynamicTexts.length < 2 ^ 32
  dynamicTextGlyphs : document.dynamicTextGlyphs.length < 2 ^ 32
  userPropertyBindings : document.userPropertyBindings.length < 2 ^ 32
  objectParallaxDepths : document.objectParallaxDepths.length < 2 ^ 32
  timeline : document.objectAnimationLayers.length + document.puppetAnimationClips.length +
    document.objectTransformTracks.length < 2 ^ 32
  image : ∀ chunks, encodeChunks document = .ok chunks → imageLen chunks < 2 ^ 64

section Container

variable {pre v post data : Bytes} {offset : Nat}

theorem slice_append (hdata : data = pre ++ v ++ post) (hoffset : offset = pre.length) :
    offset + v.length ≤ data.length ∧ (data.drop offset).take v.length = v := by
  subst hdata hoffset
  simp

variable {a b : Nat}

theorem add_ok (h : a + b < 2 ^ 64) : add a b = .ok (a + b) := by
  rw [add, checkedAdd, if_pos h, okOr]

theorem mul_ok (h : a * b < 2 ^ 64) : mul a b = .ok (a * b) := by
  rw [mul, checkedMul, if_pos h, okOr]

theorem readAt_append (hdata : data = pre ++ v ++ post)
    (hoffset : offset = pre.length) (hsize : data.length < 2 ^ 64) (name : String) :
    readAt v.length data offset name = .ok (ofLe v) := by
  obtain ⟨hle, hslice⟩ := slice_append hdata hoffset
  rw [readAt, add_ok (by omega), except_ok_bind, if_pos ⟨Nat.le_add_right _ _, hle⟩, Nat.add_sub_cancel_left, hslice,
    if_pos rfl]
  rfl

theorem readU32At_append (pre : Bytes) {value : UInt32}
    (hdata : data = pre ++ putU32 value ++ post) (hoffset : offset = pre.length) (hsize : data.length < 2 ^ 64)
    (name : String) : readU32At data offset name = .ok value := by
  have hread := readAt_append hdata hoffset hsize name
  rw [putU32, length_toLe, ofLe_toLe value.toNat_lt] at hread
  rw [readU32At, hread]
  simp [bind, Except.bind, pure, Except.pure]

theorem readU64At_append (pre : Bytes) {value : UInt64}
    (hdata : data = pre ++ putU64 value ++ post) (hoffset : offset = pre.length) (hsize : data.length < 2 ^ 64)
    (name : String) : readU64At data offset name = .ok value := by
  have hread := readAt_append hdata hoffset hsize name
  rw [putU64, length_toLe, ofLe_toLe value.toNat_lt] at hread
  rw [readU64At, hread]
  simp [bind, Except.bind, pure, Except.pure]

@[simp] theorem length_putU32 (value : UInt32) : (putU32 value).length = 4 := length_toLe _ _

@[simp] theorem length_putU64 (value : UInt64) : (putU64 value).length = 8 := length_toLe _ _

@[simp] theorem length_putEntry (chunk : SceneEncodedChunk) (payloadOffset len : UInt64) :
    (putEntry chunk payloadOffset len).length = chunkEntryLen := by
  simp [putEntry, chunkEntryLen]

/-- What `writeEntries` puts out when no offset overflows. -/
def entryTable : List SceneEncodedChunk → Nat → Bytes
  | [], _ => []
  | chunk :: chunks, payloadOffset =>
    putEntry chunk (UInt64.ofNat payloadOffset) (UInt64.ofNat chunk.data.length) ++
      entryTable chunks (payloadOffset + chunk.data.length)

theorem length_entryTable (chunks : List SceneEncodedChunk) (payloadOffset : Nat) :
    (entryTable chunks payloadOffset).length = chunks.length * chunkEntryLen := by
  induction chunks generalizing payloadOffset with
  | nil => simp [entryTable]
  | cons chunk chunks ih =>
    rw [entryTable, length_append, ih, length_putEntry, length_cons, Nat.succ_mul, Nat.add_comm]

theorem writeEntries_ok {chunks : List SceneEncodedChunk} {payloadOffset : Nat}
    (h : payloadOffset + (chunks.flatMap (·.data)).length < 2 ^ 64) :
    writeEntries chunks payloadOffset = .ok (entryTable chunks payloadOffset) := by
  induction chunks generalizing payloadOffset with
  | nil => rfl
  | cons chunk chunks ih =>
    rw [flatMap_cons, length_append] at h
    have hlen : checkedU64 chunk.data.length "chunk length" = .ok (UInt64.ofNat chunk.data.length) :=
      if_pos (by omega)
    have hnext : checkedAdd payloadOffset chunk.data.length = some (payloadOffset + chunk.data.length) :=
      if_pos (by omega)
    rw [writeEntries, hlen, hnext, okOr, entryTable]
    have hrest : writeEntries chunks (payloadOffset + chunk.data.length) =
        .ok (entryTable chunks (payloadOffset + chunk.data.length)) := ih (by omega)
    simp [bind, Except.bind, hrest, pure, Except.pure]

variable {chunks : Chunks}

theorem readEntry_ok {chunk : SceneEncodedChunk} {payloadOffset tableOffset index : Nat} (hdata : data = pre ++
      putEntry chunk (UInt64.ofNat payloadOffset) (UInt64.ofNat chunk.data.length) ++ post)
    (hbase : tableOffset + index * chunkEntryLen = pre.length) (hsize : data.length < 2 ^ 64)
    (hslice : (data.drop payloadOffset).take chunk.data.length = chunk.data)
    (hstop : payloadOffset + chunk.data.length ≤ data.length) (hnew : chunks.find chunk.kind = none) :
    readEntry data tableOffset chunks index =
      .ok (chunks.insert chunk.kind { payload := chunk.data, itemCount := chunk.itemCount }) := by
  have hkind : readU32At data pre.length "chunk kind" = .ok chunk.kind :=
    readU32At_append pre (by simp [hdata]; rfl) rfl hsize _
  have hoffset : readU64At data (pre.length + 8) "chunk offset" = .ok (UInt64.ofNat payloadOffset) :=
    readU64At_append (pre ++ putU32 chunk.kind ++ putU32 0) (by simp [hdata]; rfl) (by simp) hsize _
  have hlen : readU64At data (pre.length + 16) "chunk length" = .ok (UInt64.ofNat chunk.data.length) :=
    readU64At_append (pre ++ putU32 chunk.kind ++ putU32 0 ++ putU64 (UInt64.ofNat payloadOffset))
      (by simp [hdata]; rfl) (by simp) hsize _
  have hcount : readU32At data (pre.length + 24) "chunk item count" = .ok chunk.itemCount :=
    readU32At_append (pre ++ putU32 chunk.kind ++ putU32 0 ++ putU64 (UInt64.ofNat payloadOffset) ++
      putU64 (UInt64.ofNat chunk.data.length)) (by simp [hdata]; rfl) (by simp) hsize _
  have hoffsetNat : (UInt64.ofNat payloadOffset).toNat = payloadOffset := by
    rw [UInt64.toNat_ofNat', Nat.mod_eq_of_lt (by omega)]
  have hlenNat : (UInt64.ofNat chunk.data.length).toNat = chunk.data.length := by
    rw [UInt64.toNat_ofNat', Nat.mod_eq_of_lt (by omega)]
  have hadd : checkedAdd payloadOffset chunk.data.length = some (payloadOffset + chunk.data.length) :=
    if_pos (by omega)
  have hbase' : tableOffset + index * chunkEntryLen + chunkEntryLen ≤ data.length := by
    rw [hdata, length_append, length_append, length_putEntry, hbase]
    omega
  rw [chunkEntryLen] at hbase'
  have hmul : mul index chunkEntryLen = .ok (index * chunkEntryLen) := mul_ok (by rw [chunkEntryLen]; omega)
  have hadd' : ∀ n ≤ 24, add pre.length n = .ok (pre.length + n) := fun n hn =>
    add_ok (by rw [← hbase, chunkEntryLen]; omega)
  have hstart : add tableOffset (index * chunkEntryLen) = .ok pre.length := by
    rw [← hbase]
    exact add_ok (by rw [chunkEntryLen]; omega)
  have hindex : Scene.index data payloadOffset (payloadOffset + chunk.data.length) = .ok chunk.data := by
    rw [Scene.index, if_pos ⟨Nat.le_add_right _ _, hstop⟩, Nat.add_sub_cancel_left, hslice]
  simp [readEntry, hmul, hstart, hadd', hkind, hoffset, hlen, hcount, hoffsetNat, hlenNat, hadd, okOr,
    Nat.not_lt.mpr hstop, hnew, hindex, bind, Except.bind, pure, Except.pure]

/-- An image whose table still has the entries of `encoded` to come: `pre` holds the header and the
entries before them, `mid` the payloads before theirs. -/
def layout (pre : Bytes) (encoded : List SceneEncodedChunk) (mid : Bytes) : Bytes :=
  pre ++ entryTable encoded (pre.length + encoded.length * chunkEntryLen + mid.length) ++ mid ++
    encoded.flatMap (·.data)

def payloadOffset (pre : Bytes) (encoded : List SceneEncodedChunk) (mid : Bytes) : Nat :=
  pre.length + encoded.length * chunkEntryLen + mid.length

def firstEntry (pre : Bytes) (chunk : SceneEncodedChunk) (encoded : List SceneEncodedChunk) (mid : Bytes) : Bytes :=
  putEntry chunk (UInt64.ofNat (payloadOffset pre (chunk :: encoded) mid)) (UInt64.ofNat chunk.data.length)

theorem payloadOffset_cons (pre mid : Bytes) (chunk : SceneEncodedChunk) (encoded : List SceneEncodedChunk) :
    payloadOffset (pre ++ firstEntry pre chunk encoded mid) encoded (mid ++ chunk.data) =
      payloadOffset pre (chunk :: encoded) mid + chunk.data.length := by
  simp only [payloadOffset, firstEntry, length_append, length_putEntry, length_cons, Nat.succ_mul]
  omega

theorem layout_cons (pre mid : Bytes) (chunk : SceneEncodedChunk) (encoded : List SceneEncodedChunk) :
    layout pre (chunk :: encoded) mid = layout (pre ++ firstEntry pre chunk encoded mid) encoded (mid ++ chunk.data) := by
  grind [payloadOffset_cons, payloadOffset, layout, entryTable, firstEntry]

theorem slice_layout (pre mid : Bytes) (chunk : SceneEncodedChunk) (encoded : List SceneEncodedChunk) :
    payloadOffset pre (chunk :: encoded) mid + chunk.data.length ≤ (layout pre (chunk :: encoded) mid).length ∧
      ((layout pre (chunk :: encoded) mid).drop (payloadOffset pre (chunk :: encoded) mid)).take chunk.data.length =
        chunk.data := by
  let table := entryTable (chunk :: encoded) (payloadOffset pre (chunk :: encoded) mid)
  have hdata : layout pre (chunk :: encoded) mid = (pre ++ table ++ mid) ++ chunk.data ++ encoded.flatMap (·.data) := by
    rw [layout, flatMap_cons]
    simp only [append_assoc, table, payloadOffset]
  refine slice_append hdata ?_
  rw [length_append, length_append, length_entryTable, payloadOffset]

theorem readEntries_ok (data : Bytes) (tableOffset : Nat) (hsize : data.length < 2 ^ 64)
    (encoded : List SceneEncodedChunk) (pre mid : Bytes) (index : Nat) (chunks : Chunks)
    (hdata : data = layout pre encoded mid)
    (hbase : tableOffset + index * chunkEntryLen = pre.length) (hnodup : (encoded.map (·.kind)).Nodup)
    (hnew : ∀ chunk ∈ encoded, chunks.find chunk.kind = none) :
    ∃ result : Chunks, (List.range' index encoded.length).foldlM (readEntry data tableOffset) chunks = .ok result ∧
      (∀ chunk ∈ encoded, result.find chunk.kind = some ⟨chunk.data, chunk.itemCount⟩) ∧
      ∀ kind ∉ encoded.map (·.kind), result.find kind = chunks.find kind := by
  induction encoded generalizing pre mid index chunks with
  | nil => exact ⟨chunks, rfl, by simp, fun _ _ => rfl⟩
  | cons chunk encoded ih =>
    obtain ⟨hkind, hnodup⟩ : chunk.kind ∉ encoded.map (·.kind) ∧ (encoded.map (·.kind)).Nodup := by
      grind
    obtain ⟨hstop, hslice⟩ := slice_layout pre mid chunk encoded
    rw [← hdata] at hstop hslice
    have hlayout := hdata.trans (layout_cons pre mid chunk encoded)
    have hentry := hlayout
    rw [layout, append_assoc, append_assoc] at hentry
    have hread := readEntry_ok hentry hbase hsize hslice hstop (hnew chunk (by simp))
    obtain ⟨result, hfold, hfind, hother⟩ := ih (pre ++ firstEntry pre chunk encoded mid) (mid ++ chunk.data)
      (index + 1) (chunks.insert chunk.kind ⟨chunk.data, chunk.itemCount⟩) hlayout
      (by rw [length_append, firstEntry, length_putEntry, ← hbase, Nat.succ_mul, Nat.add_assoc]) hnodup
      (by
        simp_all)
    refine ⟨result, ?_, ?_, ?_⟩
    · rw [length_cons, range'_succ, foldlM_cons, hread]
      exact hfold
    · grind +splitImp +splitIndPred [Map.find_insert]
    grind [Map.find_insert]

theorem length_sceneBinaryMagic : sceneBinaryMagic.length = 8 := rfl

variable (featureFlags : UInt64)

theorem length_putHeader (chunkCount : UInt32) : (putHeader featureFlags chunkCount).length = headerLen := by
  simp [putHeader, headerLen, length_sceneBinaryMagic]

/-- With its own header in front, an image is taken to its chunk table. -/
theorem readSceneBinaryBytes_header {featureFlags : UInt64} {chunkCount : UInt32} {data rest : Bytes}
    (hdata : data = putHeader featureFlags chunkCount ++ rest) (hsize : data.length < 2 ^ 64)
    (hend : headerLen + chunkCount.toNat * chunkEntryLen ≤ data.length) : readSceneBinaryBytes data =
      ((range chunkCount.toNat).foldlM (readEntry data headerLen) .empty >>= fun chunks =>
        validateRequiredChunks chunks >>= fun _ => decodeChunks chunks featureFlags) := by
  have hlen : ¬ data.length < headerLen := by omega
  have hheader : headerLen = 36 := rfl
  have hmagic : index data 0 8 = .ok sceneBinaryMagic := by
    rw [index, if_pos ⟨Nat.zero_le 8, by omega⟩]
    simp [hdata, putHeader, length_sceneBinaryMagic, take_append]
  have hversion : readU32At data 8 "version" = .ok sceneBinaryVersion :=
    readU32At_append sceneBinaryMagic (by simp [hdata]; rfl) (length_sceneBinaryMagic).symm hsize _
  have hendian : data[12]? = some sceneBinaryEndiannessLittle := by
    simp [hdata, putHeader, getElem?_append, length_sceneBinaryMagic]
  have hflags : readU64At data 16 "feature flags" = .ok featureFlags :=
    readU64At_append (sceneBinaryMagic ++ putU32 sceneBinaryVersion ++ [sceneBinaryEndiannessLittle] ++ [0, 0, 0])
      (by simp [hdata]; rfl) (by simp [length_sceneBinaryMagic]) hsize _
  have hcount : readU32At data 24 "chunk count" = .ok chunkCount :=
    readU32At_append (sceneBinaryMagic ++ putU32 sceneBinaryVersion ++ [sceneBinaryEndiannessLittle] ++ [0, 0, 0] ++
      putU64 featureFlags) (by simp [hdata]; rfl) (by simp [length_sceneBinaryMagic]) hsize _
  have htable : readU64At data 28 "chunk table offset" = .ok (UInt64.ofNat headerLen) :=
    readU64At_append (sceneBinaryMagic ++ putU32 sceneBinaryVersion ++ [sceneBinaryEndiannessLittle] ++ [0, 0, 0] ++
      putU64 featureFlags ++ putU32 chunkCount) (by simp [hdata]; rfl) (by simp [length_sceneBinaryMagic]) hsize _
  have hoffset : (UInt64.ofNat headerLen).toNat = headerLen := rfl
  have hadd : checkedAdd headerLen (chunkCount.toNat * chunkEntryLen) =
      some (headerLen + chunkCount.toNat * chunkEntryLen) := if_pos (by omega)
  have hmul : checkedMul chunkCount.toNat chunkEntryLen = some (chunkCount.toNat * chunkEntryLen) := if_pos (by omega)
  have hrange : sceneBinaryMinReadVersion ≤ sceneBinaryVersion ∧ sceneBinaryVersion ≤ sceneBinaryVersion := by decide
  simp [readSceneBinaryBytes, hlen, hmagic, hversion, hrange, hendian, hflags, hcount, htable, hoffset, hmul, hadd, okOr,
    Nat.not_lt.mpr hend, bind, Except.bind]

theorem validateRequiredChunks_ok (h : ∀ kind ∈ requiredSceneChunks, (chunks.find kind).isSome) :
    validateRequiredChunks chunks = .ok () := by
  rw [validateRequiredChunks]
  generalize requiredSceneChunks = required at h
  induction required with
  | nil => rfl
  | cons kind required ih => grind

theorem readSceneBinaryBytes_image {encoded : List SceneEncodedChunk}
    (hcount : encoded.length < 2 ^ 32) (hsize : imageLen encoded < 2 ^ 64) (hnodup : (encoded.map (·.kind)).Nodup)
    (hrequired : requiredSceneChunks ⊆ encoded.map (·.kind)) :
    ∃ chunks : Chunks, (∀ chunk ∈ encoded, chunks.find chunk.kind = some ⟨chunk.data, chunk.itemCount⟩) ∧
      (∀ kind ∉ encoded.map (·.kind), chunks.find kind = none) ∧
      readSceneBinaryBytes (putHeader featureFlags (UInt32.ofNat encoded.length) ++
        entryTable encoded (headerLen + encoded.length * chunkEntryLen) ++ encoded.flatMap (·.data)) =
          decodeChunks chunks featureFlags := by
  have hcountNat : (UInt32.ofNat encoded.length).toNat = encoded.length := by
    rw [UInt32.toNat_ofNat', Nat.mod_eq_of_lt hcount]
  have hheader := length_putHeader featureFlags (UInt32.ofNat encoded.length)
  have hlayout : putHeader featureFlags (UInt32.ofNat encoded.length) ++
      entryTable encoded (headerLen + encoded.length * chunkEntryLen) ++ encoded.flatMap (·.data) =
        layout (putHeader featureFlags (UInt32.ofNat encoded.length)) encoded [] := by
    rw [layout, hheader]
    simp
  have hlen : (layout (putHeader featureFlags (UInt32.ofNat encoded.length)) encoded []).length = imageLen encoded := by
    rw [← hlayout, length_append, length_append, hheader, length_entryTable, imageLen]
  obtain ⟨chunks, hfold, hfind, hother⟩ := readEntries_ok (layout _ encoded []) headerLen (by rw [hlen]; exact hsize)
    encoded (putHeader featureFlags (UInt32.ofNat encoded.length)) [] 0 .empty rfl (by omega) hnodup
    (by simp)
  refine ⟨chunks, hfind, (fun kind hkind => (hother kind hkind).trans (Map.find_empty kind)), ?_⟩
  have hvalid : validateRequiredChunks chunks = .ok () := by
    apply validateRequiredChunks_ok
    intro kind hmem
    obtain ⟨chunk, hchunk, rfl⟩ := mem_map.mp (hrequired hmem)
    simp [hfind chunk hchunk]
  rw [hlayout, readSceneBinaryBytes_header (by rw [layout, append_assoc, append_assoc]) (by omega)
    (by rw [hlen, hcountNat, imageLen]; omega), hcountNat, range_eq_range', hfold]
  change (validateRequiredChunks chunks >>= fun _ => decodeChunks chunks featureFlags) = _
  rw [hvalid]
  rfl

end Container

section Document

variable {document : SceneBinaryDocument}

section

variable (h : Fits document)
include h

theorem encodes_sceneObjects :
    Encodes (encodeSceneObjects document.objects document.objectEffects) decodeSceneObjects ⟨document.objects,
      document.objectEffects⟩ :=
  Parts.encodes (.table h.objects (.table h.objectEffects (.done _)))

theorem encodes_materials :
    Encodes (encodeMaterials document.materials document.materialPasses document.materialTextures
      document.materialConstants) decodeMaterials ⟨document.materials, document.materialPasses,
      document.materialTextures, document.materialConstants⟩ :=
  Parts.encodes (.table h.materials (.table h.materialPasses (.table h.materialTextures (.table h.materialConstants
    (.done _)))))

theorem encodes_meshes :
    Encodes (encodeMeshes document.meshes document.meshVertices document.meshIndices document.meshSourceRecords
      document.meshClippingSubdraws document.meshClippingSourceOrdinals document.meshClippingSlices) decodeMeshes
      ⟨document.meshes, document.meshVertices, document.meshIndices, document.meshSourceRecords,
      document.meshClippingSubdraws, document.meshClippingSourceOrdinals, document.meshClippingSlices⟩ :=
  Parts.encodes (.table h.meshes (.table h.meshVertices (.table h.meshIndices (.table h.meshSourceRecords (.table
    h.meshClippingSubdraws (.table h.meshClippingSourceOrdinals (.table h.meshClippingSlices (.done _))))))))

theorem encodes_puppets :
    Encodes (encodePuppets document.puppets document.puppetBones document.puppetAttachments) decodePuppets
      ⟨document.puppets, document.puppetBones, document.puppetAttachments⟩ :=
  Parts.encodes (.table h.puppets (.table h.puppetBones (.table h.puppetAttachments (.done _))))

theorem encodes_effects :
    Encodes (encodeEffects document.effects document.effectPasses document.effectBindings document.effectCombos
      document.effectFbos) decodeEffects ⟨document.effects, document.effectPasses, document.effectBindings,
      document.effectCombos, document.effectFbos⟩ :=
  Parts.encodes (.table h.effects (.table h.effectPasses (.table h.effectBindings (.table h.effectCombos (.table
    h.effectFbos (.done _))))))

theorem encodes_renderGraphs :
    Encodes (encodeRenderGraphs document.renderGraphs document.renderPasses document.renderBindings
      document.unsupported) decodeRenderGraphs ⟨document.renderGraphs, document.renderPasses, document.renderBindings,
      document.unsupported⟩ :=
  Parts.encodes (.table h.renderGraphs (.table h.renderPasses (.table h.renderBindings (.table h.unsupported (.done
    _)))))

theorem encodes_shaderContracts :
    Encodes (encodeShaderContracts document.shaderContracts document.shaderConstantNames) decodeShaderContracts
      ⟨document.shaderContracts, document.shaderConstantNames⟩ :=
  Parts.encodes (.table h.shaderContracts (.table h.shaderConstantNames (.done _)))

theorem encodes_shaderPrograms :
    Encodes (encodeShaderPrograms document.shaderPrograms document.shaderBindings document.shaderStageIo
      document.shaderUniformBuffers document.shaderUniformMembers document.shaderSpirv) decodeShaderPrograms
      ⟨document.shaderPrograms, document.shaderStageIo, document.shaderUniformBuffers, document.shaderUniformMembers,
      document.shaderBindings, document.shaderSpirv⟩ :=
  Parts.encodes (.table h.shaderPrograms (.table h.shaderStageIo (.table h.shaderUniformBuffers (.table
    h.shaderUniformMembers (.table h.shaderBindings (.table h.shaderSpirv (.done _)))))))

theorem encodes_dynamicText :
    Encodes (encodeDynamicText document.dynamicTexts document.dynamicTextGlyphs) decodeDynamicText
      ⟨document.dynamicTexts, document.dynamicTextGlyphs⟩ :=
  Parts.encodes (.table h.dynamicTexts (.table h.dynamicTextGlyphs (.done _)))

theorem encodes_pointerBindings :
    Encodes (encodePointerBindings document.cameraParallax document.objectParallaxDepths) decodePointerBindings
      ⟨document.cameraParallax, document.objectParallaxDepths⟩ :=
  Parts.encodes (.record (.table h.objectParallaxDepths (.done _)))

end

variable {α : Type} {record : Decoder α} {put : α → Bytes} {records : List α}

theorem reads_counted [Decodes record put]
    (h : records.length < 2 ^ 32) : Reads (table record) (putTable put records) records :=
  reads_table h fun a _ => Decodes.reads a

theorem reads_project (project : SceneProjectRecord) : Reads decodeProject (encodeProject project) project := by
  have h : Reads SceneProjectRecord.decode project.put project := Decodes.reads project
  exact h

theorem reads_textures (h : Fits document) :
    Reads decodeTextures (encodeTextures document.textures document.textureSequenceFrames)
      (document.textures, document.textureSequenceFrames) :=
  Fields.reads (.part (reads_counted h.textures) (.part (reads_counted h.textureSequenceFrames) (.done _)))

variable {β : Type} {b : β}

theorem reads_remaining {m m' : Decoder β} {bytes : Bytes} (hpos : 0 < bytes.length)
    (h : Reads m bytes b) : Reads (remaining >>= fun left => if left ≠ 0 then m else m') bytes b := by
  intro context pre post hsize
  have hleft : (pre ++ bytes ++ post).length - pre.length ≠ 0 := by
    simp only [length_append]
    omega
  have hrun : remaining ⟨context, pre ++ bytes ++ post, pre.length⟩ =
      .ok ((pre ++ bytes ++ post).length - pre.length) ⟨context, pre ++ bytes ++ post, pre.length⟩ := rfl
  rw [bind_ok hrun, if_pos hleft]
  exact h context pre post hsize

theorem Encodes.remaining [Decodes record put]
    {name : String} {parts : List (Except SceneBinaryError Bytes)} {f : List α → Decoder β} {m' : Decoder β}
    (hlen : records.length < 2 ^ 32) (h : Encodes (concat parts) (f records) b) :
    Encodes (concat (encodeTable name put records :: parts))
      (Decoder.remaining >>= fun left => if left ≠ 0 then table record >>= f else m') b := by
  obtain ⟨rest, hparts, hrest⟩ := h
  have hread : Reads (table record >>= f) (putTable put records ++ rest) b := (reads_counted hlen).bind hrest
  refine ⟨putTable put records ++ rest, ?_, reads_remaining (by simp [putTable]) hread⟩
  rw [concat, encodeTable_ok hlen, hparts]
  rfl

theorem encodes_timelines (h : Fits document) :
    Encodes (encodeTimelines document.objectAnimationLayers document.puppetAnimationClips
      document.puppetAnimationTracks document.puppetAnimationTransformSamples document.puppetAnimationOpacitySamples
      document.objectTransformTracks document.objectTransformChannels document.objectTransformKeyframes)
      decodeTimelines ⟨document.objectAnimationLayers, document.puppetAnimationClips, document.puppetAnimationTracks,
      document.puppetAnimationTransformSamples, document.puppetAnimationOpacitySamples,
      document.objectTransformTracks, document.objectTransformChannels, document.objectTransformKeyframes⟩ := by
  refine Encodes.concat_cons (encodes_table h.objectAnimationLayers _) ?_
  refine Encodes.concat_cons (encodes_table h.puppetAnimationClips _) ?_
  refine Encodes.concat_cons (encodes_table h.puppetAnimationTracks _) ?_
  refine Encodes.concat_cons (encodes_table h.puppetAnimationTransformSamples _) ?_
  refine Encodes.concat_cons (encodes_table h.puppetAnimationOpacitySamples _) ?_
  refine Encodes.remaining h.objectTransformTracks ?_
  exact Parts.encodes (.table h.objectTransformChannels (.table h.objectTransformKeyframes (.done _)))

theorem mapM_id_ok {encoded : List (Except SceneBinaryError α)} {values : List α}
    (h : List.Forall₂ (fun e a => e = .ok a) encoded values) : List.mapM id encoded = .ok values := by
  induction h with
  | nil => rfl
  | cons h _ ih =>
    rw [mapM_cons, ih, h]
    rfl

variable {count : Nat} {data : Bytes}

theorem encodedChunk_ok {encoded : Except SceneBinaryError Bytes}
    (hcount : count < 2 ^ 32) (h : encoded = .ok data) (kind : UInt32) (name : String) :
    encodedChunk kind count name encoded = .ok ⟨kind, UInt32.ofNat count, data⟩ := by
  rw [encodedChunk, checkedU32_ok hcount, h]
  rfl

/-- The chunk table and the payloads of an image hold the chunk. -/
def Stored (chunks : Chunks) (chunk : SceneEncodedChunk) : Prop :=
  chunks.find chunk.kind = some ⟨chunk.data, chunk.itemCount⟩ ∧ chunk.data.length < 2 ^ 64

variable {chunks : Chunks}

theorem chunkPayload_ok {chunk : SceneEncodedChunk} (h : Stored chunks chunk) :
    chunkPayload chunks chunk.kind = .ok chunk.data := by
  rw [chunkPayload, h.1]
  rfl

variable {kind : UInt32}

theorem ensureChunkCount_ok (h : Stored chunks ⟨kind, UInt32.ofNat count, data⟩) (hcount : count < 2 ^ 32) (name : String) :
    ensureChunkCount chunks kind name count = .ok () := by
  have hnat : (UInt32.ofNat count).toNat = count := by rw [UInt32.toNat_ofNat', Nat.mod_eq_of_lt hcount]
  rw [ensureChunkCount, h.1]
  exact if_pos hnat

variable {number : Nat} {a : α}

theorem readChunk_ok {decode : Decoder α} {count : α → Nat} (h : Stored chunks ⟨kind, UInt32.ofNat number, data⟩) (hread : Reads decode data a)
    (hnumber : number < 2 ^ 32) (hcount : count a = number) (labels : Labels) (name : String) :
    readChunk chunks kind labels decode name count = .ok a := by
  subst hcount
  rw [readChunk, chunkPayload_ok h]
  change (decode.run labels data >>= fun value =>
    ensureChunkCount chunks kind name (count value) >>= fun _ => pure value) = _
  rw [run_of_reads hread h.2]
  change (ensureChunkCount chunks kind name (count a) >>= fun _ => pure a) = _
  rw [ensureChunkCount_ok h hnumber]
  rfl

theorem readTimelines_ok {records : SceneTimelineRecords}
    (h : Stored chunks ⟨chunkTimeline, UInt32.ofNat number, data⟩) (hread : Reads decodeTimelines data records)
    (hnumber : number < 2 ^ 32) (hcount : records.objectAnimationLayers.length + records.puppetAnimationClips.length +
      records.objectTransformTracks.length = number) : readTimelines chunks = .ok records := by
  subst hcount
  rw [readTimelines, chunkPayload_ok h, except_ok_bind, run_of_reads hread h.2, except_ok_bind, add_ok (by omega),
    except_ok_bind, add_ok (by omega), except_ok_bind, ensureChunkCount_ok h hnumber]
  rfl

theorem saturatingAdd_eq {a b : Nat} (h : a + b < 2 ^ 64) : saturatingAdd a b = a + b := by
  rw [saturatingAdd]
  omega

variable {encoded : List SceneEncodedChunk}

theorem stored_of_mem (hsize : imageLen encoded < 2 ^ 64)
    (h : ∀ chunk ∈ encoded, chunks.find chunk.kind = some ⟨chunk.data, chunk.itemCount⟩) :
    ∀ chunk ∈ encoded, Stored chunks chunk := by
  intro chunk hmem
  have hle : chunk.data.length ≤ (encoded.flatMap (·.data)).length := by
    rw [length_flatMap]
    exact single_le_sum (by simp) _ (mem_map_of_mem hmem)
  refine ⟨h chunk hmem, ?_⟩
  rw [imageLen] at hsize
  omega

def writtenKinds : List UInt32 :=
  [chunkStringTable, chunkProject, chunkSceneObject, chunkResource, chunkResourcePayload, chunkTexture,
   chunkTextureMip, chunkTexturePayload, chunkMaterial, chunkMesh, chunkEffect, chunkTimeline, chunkPuppet,
   chunkParticle, chunkAudio, chunkScriptBinding, chunkDynamicText, chunkPointerBinding, chunkUserPropertyBinding,
   chunkRenderGraph, chunkImageTarget, chunkShaderContract, chunkShaderProgram]

theorem writtenKinds_nodup : writtenKinds.Nodup := by decide +kernel

theorem requiredSceneChunks_subset : requiredSceneChunks ⊆ writtenKinds := by decide +kernel

theorem writeSceneBinary_ok (hencode : encodeChunks document = .ok encoded)
    (hcount : encoded.length < 2 ^ 32) (hsize : imageLen encoded < 2 ^ 64) :
    writeSceneBinary document = .ok (putHeader document.featureFlags (UInt32.ofNat encoded.length) ++
      entryTable encoded (headerLen + encoded.length * chunkEntryLen) ++ encoded.flatMap (·.data)) := by
  rw [writeSceneBinary, hencode]
  change (checkedU32 encoded.length "chunk count" >>= fun count =>
    writeEntries encoded (headerLen + encoded.length * chunkEntryLen) >>= fun entries =>
      pure (putHeader document.featureFlags count ++ entries ++ encoded.flatMap (·.data))) = _
  rw [checkedU32_ok hcount, writeEntries_ok hsize]
  rfl

theorem timelineCount_eq (h : Fits document) :
    saturatingAdd (saturatingAdd document.objectAnimationLayers.length document.puppetAnimationClips.length)
      document.objectTransformTracks.length = document.objectAnimationLayers.length +
        document.puppetAnimationClips.length + document.objectTransformTracks.length := by
  grind [h.timeline, saturatingAdd_eq]

theorem bind_ok_ok {x : Read α} {f : α → Read β} (hx : x = .ok a) (hf : f a = .ok b) : (x >>= f) = .ok b := by
  rw [hx]
  exact hf

theorem encodeChunks_ok (h : Fits document) :
    ∃ encoded, encodeChunks document = .ok encoded ∧ encoded.map (·.kind) = writtenKinds ∧
      ∀ chunks, (∀ chunk ∈ encoded, Stored chunks chunk) →
        decodeChunks chunks document.featureFlags = .ok document := by
  obtain ⟨strings, estrings, rstrings⟩ := encodes_stringTable h.strings h.stringBytes
  obtain ⟨objects, eobjects, robjects⟩ := encodes_sceneObjects h
  obtain ⟨materials, ematerials, rmaterials⟩ := encodes_materials h
  obtain ⟨meshes, emeshes, rmeshes⟩ := encodes_meshes h
  obtain ⟨effects, eeffects, reffects⟩ := encodes_effects h
  obtain ⟨timelines, etimelines, rtimelines⟩ := encodes_timelines h
  obtain ⟨puppets, epuppets, rpuppets⟩ := encodes_puppets h
  obtain ⟨particles, eparticles, rparticles⟩ : Encodes (encodeParticles document.particles) decodeParticles _ :=
    encodes_table h.particles _
  obtain ⟨scripts, escripts, rscripts⟩ : Encodes (encodeScriptBindings document.scriptPrograms) decodeScriptBindings _ :=
    encodes_table h.scriptPrograms _
  obtain ⟨texts, etexts, rtexts⟩ := encodes_dynamicText h
  obtain ⟨pointers, epointers, rpointers⟩ := encodes_pointerBindings h
  obtain ⟨properties, eproperties, rproperties⟩ :
      Encodes (encodeUserPropertyBindings document.userPropertyBindings) decodeUserPropertyBindings _ :=
    encodes_table h.userPropertyBindings _
  obtain ⟨graphs, egraphs, rgraphs⟩ := encodes_renderGraphs h
  obtain ⟨contracts, econtracts, rcontracts⟩ := encodes_shaderContracts h
  obtain ⟨programs, eprograms, rprograms⟩ := encodes_shaderPrograms h
  have htimeline := timelineCount_eq h
  have hcount := h.timeline
  rw [← htimeline] at hcount
  refine ⟨_, mapM_id_ok (.cons (encodedChunk_ok h.strings estrings _ _) <| .cons rfl <|
    .cons (encodedChunk_ok h.objects eobjects _ _) <| .cons (encodedChunk_ok h.resources rfl _ _) <|
    .cons (encodedChunk_ok h.resources rfl _ _) <| .cons (encodedChunk_ok h.textures rfl _ _) <|
    .cons (encodedChunk_ok h.textureMips rfl _ _) <| .cons (encodedChunk_ok h.textures rfl _ _) <|
    .cons (encodedChunk_ok h.materials ematerials _ _) <| .cons (encodedChunk_ok h.meshes emeshes _ _) <|
    .cons (encodedChunk_ok h.effects eeffects _ _) <|
    .cons (encodedChunk_ok hcount etimelines _ _) <|
    .cons (encodedChunk_ok h.puppets epuppets _ _) <| .cons (encodedChunk_ok h.particles eparticles _ _) <|
    .cons rfl <| .cons (encodedChunk_ok h.scriptPrograms escripts _ _) <|
    .cons (encodedChunk_ok h.dynamicTexts etexts _ _) <|
    .cons (encodedChunk_ok h.objectParallaxDepths epointers _ _) <|
    .cons (encodedChunk_ok h.userPropertyBindings eproperties _ _) <|
    .cons (encodedChunk_ok h.renderGraphs egraphs _ _) <| .cons (encodedChunk_ok h.imageTargets rfl _ _) <|
    .cons (encodedChunk_ok h.shaderContracts econtracts _ _) <|
    .cons (encodedChunk_ok h.shaderPrograms eprograms _ _) .nil), rfl, ?_⟩
  intro chunks hstored
  simp only [forall_mem_cons] at hstored
  obtain ⟨sstrings, sproject, sobjects, sresources, sresourcePayload, stextures, smips, stexturePayload, smaterials,
    smeshes, seffects, stimelines, spuppets, sparticles, saudio, sscripts, stexts, spointers, sproperties, sgraphs,
    stargets, scontracts, sprograms, -⟩ := hstored
  have hzero : 0 < 2 ^ 32 := by decide
  have hone : 1 < 2 ^ 32 := by decide
  -- In the order of the reader, which is not that of the writer.
  refine bind_ok_ok (readChunk_ok sstrings rstrings h.strings rfl _ _) ?_
  refine bind_ok_ok (readChunk_ok sproject (reads_project document.project) hone rfl _ _) ?_
  refine bind_ok_ok (readChunk_ok sresources (reads_counted h.resources) h.resources rfl _ _) ?_
  refine bind_ok_ok (chunkPayload_ok sresourcePayload) ?_
  refine bind_ok_ok (ensureChunkCount_ok sresourcePayload h.resources _) ?_
  refine bind_ok_ok (readChunk_ok stextures (reads_textures h) h.textures rfl _ _) ?_
  refine bind_ok_ok (readChunk_ok smips (reads_counted h.textureMips) h.textureMips rfl _ _) ?_
  refine bind_ok_ok (chunkPayload_ok stexturePayload) ?_
  refine bind_ok_ok (ensureChunkCount_ok stexturePayload h.textures _) ?_
  refine bind_ok_ok (readChunk_ok sobjects robjects h.objects rfl _ _) ?_
  refine bind_ok_ok (readChunk_ok smaterials rmaterials h.materials rfl _ _) ?_
  refine bind_ok_ok (readChunk_ok smeshes rmeshes h.meshes rfl _ _) ?_
  refine bind_ok_ok (readChunk_ok spuppets rpuppets h.puppets rfl _ _) ?_
  refine bind_ok_ok (readChunk_ok sparticles rparticles h.particles rfl _ _) ?_
  refine bind_ok_ok (readChunk_ok seffects reffects h.effects rfl _ _) ?_
  refine bind_ok_ok (readTimelines_ok stimelines rtimelines hcount htimeline.symm) ?_
  refine bind_ok_ok (readChunk_ok sgraphs rgraphs h.renderGraphs rfl _ _) ?_
  refine bind_ok_ok (readChunk_ok stargets (reads_counted h.imageTargets) h.imageTargets rfl _ _) ?_
  refine bind_ok_ok (readChunk_ok scontracts rcontracts h.shaderContracts rfl _ _) ?_
  refine bind_ok_ok (readChunk_ok sprograms rprograms h.shaderPrograms rfl _ _) ?_
  refine bind_ok_ok (readChunk_ok sscripts rscripts h.scriptPrograms rfl _ _) ?_
  refine bind_ok_ok (readChunk_ok stexts rtexts h.dynamicTexts rfl _ _) ?_
  refine bind_ok_ok (readChunk_ok sproperties rproperties h.userPropertyBindings rfl _ _) ?_
  refine bind_ok_ok (ensureChunkCount_ok saudio hzero _) ?_
  refine bind_ok_ok (readChunk_ok spointers rpointers h.objectParallaxDepths rfl _ _) ?_
  rfl

theorem readSceneBinaryBytes_writeSceneBinary (h : Fits document) :
    ∃ image, writeSceneBinary document = .ok image ∧ readSceneBinaryBytes image = .ok document := by
  obtain ⟨encoded, hencode, hkinds, hdecode⟩ := encodeChunks_ok h
  have hsize := h.image encoded hencode
  have hcount : encoded.length < 2 ^ 32 := by
    have hlen := congrArg List.length hkinds
    rw [length_map] at hlen
    rw [hlen]
    decide
  obtain ⟨chunks, hfind, -, hread⟩ := readSceneBinaryBytes_image document.featureFlags hcount hsize
    (hkinds ▸ writtenKinds_nodup) (hkinds ▸ requiredSceneChunks_subset)
  grind [writeSceneBinary_ok, stored_of_mem]

def smallScene : SceneBinaryDocument where
  strings := [⟨ofAscii "clock", by decide +kernel⟩, ⟨[], by decide +kernel⟩]
  resourcePayload := [7, 0, 255]
  meshIndices := [0, 2, 1]
  objectTransformKeyframes := [⟨.zero, .one, #v[.zero, .one], #v[.one, .zero], 3⟩]
  shaderConstantNames := [⟨0⟩, .none]

theorem readSceneBinaryBytes_smallScene : Fits smallScene ∧
      ∃ image, writeSceneBinary smallScene = .ok image ∧ readSceneBinaryBytes image = .ok smallScene := by
  have hfits : Fits smallScene := by
    have himage : (encodeChunks smallScene).toOption.all fun chunks => imageLen chunks < 2 ^ 64 := by decide +kernel
    constructor
    case image =>
      intro chunks h
      simpa [h, Except.toOption] using himage
    case stringBytes => decide +kernel
    all_goals decide
  exact ⟨hfits, readSceneBinaryBytes_writeSceneBinary hfits⟩

end Document

end TensorDE.Scene
