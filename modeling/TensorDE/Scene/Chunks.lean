import TensorDE.Scene.Records

set_option linter.dupNamespace false

namespace TensorDE.Scene

open Bytes Effect Cursor Decoder

/-- The tables of a chunk, written one after another. -/
def concat : List (Except SceneBinaryError Bytes) → Except SceneBinaryError Bytes
  | [] => return []
  | part :: parts => do
    let bytes ← part
    let rest ← concat parts
    return bytes ++ rest

def encodeStrings : List Text → Except SceneBinaryError Bytes
  | [] => return []
  | value :: strings => do
    let len ← checkedU32 value.bytes.length "string length"
    let rest ← encodeStrings strings
    return putU32 len ++ value.bytes ++ rest

def encodeStringTable (strings : List Text) : Except SceneBinaryError Bytes := do
  let count ← checkedU32 strings.length "string count"
  let rest ← encodeStrings strings
  return putU32 count ++ rest

def fromUtf8 (bytes : Bytes) : Decoder Text :=
  if h : isUtf8 bytes = true then return ⟨bytes, h⟩ else fail .invalidUtf8

def decodeString : Decoder Text := do
  let len ← u32
  fromUtf8 (← bytes len.toNat)

def decodeStringTable : Decoder (List Text) := table decodeString

def encodeProject (project : SceneProjectRecord) : Bytes := project.put

def decodeProject : Decoder SceneProjectRecord := SceneProjectRecord.decode

def encodeResources (resources : List SceneResourceRecord) : Bytes := putTable SceneResourceRecord.put resources

def decodeResources : Decoder (List SceneResourceRecord) := table SceneResourceRecord.decode

def encodeTextures (textures : List SceneTextureRecord) (sequenceFrames : List SceneTextureSequenceFrameRecord) :
    Bytes :=
  [putTable SceneTextureRecord.put textures, putTable SceneTextureSequenceFrameRecord.put sequenceFrames].flatten

def decodeTextures : Decoder (List SceneTextureRecord × List SceneTextureSequenceFrameRecord) :=
  return (← table SceneTextureRecord.decode, ← table SceneTextureSequenceFrameRecord.decode)

def encodeTextureMips (mips : List SceneTextureMipRecord) : Bytes := putTable SceneTextureMipRecord.put mips

def decodeTextureMips : Decoder (List SceneTextureMipRecord) := table SceneTextureMipRecord.decode

def encodeSceneObjects (objects : List SceneObjectRecord) (objectEffects : List SceneObjectEffectRecord) :
    Except SceneBinaryError Bytes :=
  concat [
    encodeTable "object count" SceneObjectRecord.put objects,
    encodeTable "object effect count" SceneObjectEffectRecord.put objectEffects]

def decodeSceneObjects : Decoder (List SceneObjectRecord × List SceneObjectEffectRecord) :=
  return (← table SceneObjectRecord.decode, ← table SceneObjectEffectRecord.decode)

def encodeMaterials (materials : List SceneMaterialRecord) (passes : List SceneMaterialPassRecord)
    (textures : List SceneMaterialTextureRecord) (constants : List SceneMaterialConstantRecord) :
    Except SceneBinaryError Bytes :=
  concat [
    encodeTable "material count" SceneMaterialRecord.put materials,
    encodeTable "material pass count" SceneMaterialPassRecord.put passes,
    encodeTable "material texture count" SceneMaterialTextureRecord.put textures,
    encodeTable "material constant count" SceneMaterialConstantRecord.put constants]

structure MaterialDecode where
  materials : List SceneMaterialRecord
  passes : List SceneMaterialPassRecord
  textures : List SceneMaterialTextureRecord
  constants : List SceneMaterialConstantRecord

def decodeMaterials : Decoder MaterialDecode := return {
  materials := ← table SceneMaterialRecord.decode
  passes := ← table SceneMaterialPassRecord.decode
  textures := ← table SceneMaterialTextureRecord.decode
  constants := ← table SceneMaterialConstantRecord.decode }

def encodeMeshes (meshes : List SceneMeshRecord) (vertices : List SceneMeshVertexRecord) (indices : List UInt32)
    (sourceRecords : List SceneMeshSourceRecord) (clippingSubdraws : List SceneMeshClippingSubdrawRecord)
    (clippingSourceOrdinals : List UInt32) (clippingSlices : List SceneMeshClippingSliceRecord) :
    Except SceneBinaryError Bytes :=
  concat [
    encodeTable "mesh count" SceneMeshRecord.put meshes,
    encodeTable "mesh vertex count" SceneMeshVertexRecord.put vertices,
    encodeTable "mesh index count" putU32 indices,
    -- `mesh_clipping::encode`
    encodeTable "mesh source record count" SceneMeshSourceRecord.put sourceRecords,
    encodeTable "mesh clipping subdraw count" SceneMeshClippingSubdrawRecord.put clippingSubdraws,
    encodeTable "mesh clipping source ordinal count" putU32 clippingSourceOrdinals,
    encodeTable "mesh clipping slice count" SceneMeshClippingSliceRecord.put clippingSlices]

structure MeshDecode where
  meshes : List SceneMeshRecord
  vertices : List SceneMeshVertexRecord
  indices : List UInt32
  sourceRecords : List SceneMeshSourceRecord
  clippingSubdraws : List SceneMeshClippingSubdrawRecord
  clippingSourceOrdinals : List UInt32
  clippingSlices : List SceneMeshClippingSliceRecord

def decodeMeshes : Decoder MeshDecode := return {
  meshes := ← table SceneMeshRecord.decode
  vertices := ← table SceneMeshVertexRecord.decode
  indices := ← table u32
  sourceRecords := ← table SceneMeshSourceRecord.decode
  clippingSubdraws := ← table SceneMeshClippingSubdrawRecord.decode
  clippingSourceOrdinals := ← table u32
  clippingSlices := ← table SceneMeshClippingSliceRecord.decode }

def encodePuppets (puppets : List ScenePuppetRecord) (bones : List ScenePuppetBoneRecord)
    (attachments : List ScenePuppetAttachmentRecord) : Except SceneBinaryError Bytes :=
  concat [
    encodeTable "puppet count" ScenePuppetRecord.put puppets,
    encodeTable "puppet bone count" ScenePuppetBoneRecord.put bones,
    encodeTable "puppet attachment count" ScenePuppetAttachmentRecord.put attachments]

structure DecodedPuppets where
  puppets : List ScenePuppetRecord
  bones : List ScenePuppetBoneRecord
  attachments : List ScenePuppetAttachmentRecord

def decodePuppets : Decoder DecodedPuppets := return {
  puppets := ← table ScenePuppetRecord.decode
  bones := ← table ScenePuppetBoneRecord.decode
  attachments := ← table ScenePuppetAttachmentRecord.decode }

def encodeParticles (particles : List SceneParticleSystemRecord) : Except SceneBinaryError Bytes :=
  encodeTable "particle count" SceneParticleSystemRecord.put particles

def decodeParticles : Decoder (List SceneParticleSystemRecord) := table SceneParticleSystemRecord.decode

def encodeEffects (effects : List SceneEffectRecord) (passes : List SceneEffectPassRecord)
    (bindings : List SceneEffectBindingRecord) (combos : List SceneEffectComboRecord)
    (fbos : List SceneEffectFboRecord) : Except SceneBinaryError Bytes :=
  concat [
    encodeTable "effect count" SceneEffectRecord.put effects,
    encodeTable "effect pass count" SceneEffectPassRecord.put passes,
    encodeTable "effect binding count" SceneEffectBindingRecord.put bindings,
    encodeTable "effect combo count" SceneEffectComboRecord.put combos,
    encodeTable "effect fbo count" SceneEffectFboRecord.put fbos]

structure EffectDecode where
  effects : List SceneEffectRecord
  passes : List SceneEffectPassRecord
  bindings : List SceneEffectBindingRecord
  combos : List SceneEffectComboRecord
  fbos : List SceneEffectFboRecord

def decodeEffects : Decoder EffectDecode := return {
  effects := ← table SceneEffectRecord.decode
  passes := ← table SceneEffectPassRecord.decode
  bindings := ← table SceneEffectBindingRecord.decode
  combos := ← table SceneEffectComboRecord.decode
  fbos := ← table SceneEffectFboRecord.decode }

structure SceneTimelineRecords where
  objectAnimationLayers : List SceneObjectAnimationLayerRecord
  puppetAnimationClips : List ScenePuppetAnimationClipRecord
  puppetAnimationTracks : List ScenePuppetAnimationTrackRecord
  puppetAnimationTransformSamples : List ScenePuppetAnimationTransformSampleRecord
  puppetAnimationOpacitySamples : List F32
  objectTransformTracks : List SceneObjectTransformTrackRecord
  objectTransformChannels : List SceneObjectTransformChannelRecord
  objectTransformKeyframes : List SceneObjectTransformKeyframeRecord

def encodeTimelines (animationLayers : List SceneObjectAnimationLayerRecord)
    (puppetClips : List ScenePuppetAnimationClipRecord) (puppetTracks : List ScenePuppetAnimationTrackRecord)
    (transformSamples : List ScenePuppetAnimationTransformSampleRecord) (opacitySamples : List F32)
    (objectTransformTracks : List SceneObjectTransformTrackRecord)
    (objectTransformChannels : List SceneObjectTransformChannelRecord)
    (objectTransformKeyframes : List SceneObjectTransformKeyframeRecord) : Except SceneBinaryError Bytes :=
  concat [
    encodeTable "object animation layer count" SceneObjectAnimationLayerRecord.put animationLayers,
    encodeTable "puppet animation clip count" ScenePuppetAnimationClipRecord.put puppetClips,
    encodeTable "puppet animation track count" ScenePuppetAnimationTrackRecord.put puppetTracks,
    encodeTable "puppet animation transform sample count" ScenePuppetAnimationTransformSampleRecord.put transformSamples,
    encodeTable "puppet animation opacity sample count" putF32 opacitySamples,
    encodeTable "object transform track count" SceneObjectTransformTrackRecord.put objectTransformTracks,
    encodeTable "object transform channel count" SceneObjectTransformChannelRecord.put objectTransformChannels,
    encodeTable "object transform keyframe count" SceneObjectTransformKeyframeRecord.put objectTransformKeyframes]

def decodeTimelines : Decoder SceneTimelineRecords := do
  let records : SceneTimelineRecords := {
    objectAnimationLayers := ← table SceneObjectAnimationLayerRecord.decode
    puppetAnimationClips := ← table ScenePuppetAnimationClipRecord.decode
    puppetAnimationTracks := ← table ScenePuppetAnimationTrackRecord.decode
    puppetAnimationTransformSamples := ← table ScenePuppetAnimationTransformSampleRecord.decode
    puppetAnimationOpacitySamples := ← table f32
    objectTransformTracks := []
    objectTransformChannels := []
    objectTransformKeyframes := [] }
  -- A payload may stop before the object transform tables.
  if (← remaining) ≠ 0 then
    return { records with
      objectTransformTracks := ← table SceneObjectTransformTrackRecord.decode
      objectTransformChannels := ← table SceneObjectTransformChannelRecord.decode
      objectTransformKeyframes := ← table SceneObjectTransformKeyframeRecord.decode }
  else return records

def encodeRenderGraphs (graphs : List SceneRenderGraphRecord) (passes : List SceneRenderPassRecord)
    (bindings : List SceneRenderBindingRecord) (unsupported : List SceneUnsupportedRecord) :
    Except SceneBinaryError Bytes :=
  concat [
    encodeTable "render graph count" SceneRenderGraphRecord.put graphs,
    encodeTable "render pass count" SceneRenderPassRecord.put passes,
    encodeTable "render binding count" SceneRenderBindingRecord.put bindings,
    encodeTable "unsupported boundary count" SceneUnsupportedRecord.put unsupported]

structure RenderGraphDecode where
  graphs : List SceneRenderGraphRecord
  passes : List SceneRenderPassRecord
  bindings : List SceneRenderBindingRecord
  unsupported : List SceneUnsupportedRecord

def decodeRenderGraphs : Decoder RenderGraphDecode := return {
  graphs := ← table SceneRenderGraphRecord.decode
  passes := ← table SceneRenderPassRecord.decode
  bindings := ← table SceneRenderBindingRecord.decode
  unsupported := ← table SceneUnsupportedRecord.decode }

def encodeImageTargets (targets : List SceneImageTargetRecord) : Bytes := putTable SceneImageTargetRecord.put targets

def decodeImageTargets : Decoder (List SceneImageTargetRecord) := table SceneImageTargetRecord.decode

def encodeShaderContracts (contracts : List SceneShaderContractRecord) (constantNames : List SceneStringId) :
    Except SceneBinaryError Bytes :=
  concat [
    encodeTable "shader contract count" SceneShaderContractRecord.put contracts,
    encodeTable "shader constant name count" putStringId constantNames]

def decodeShaderContracts : Decoder (List SceneShaderContractRecord × List SceneStringId) :=
  return (← table SceneShaderContractRecord.decode, ← table stringId)

def encodeShaderPrograms (programs : List SceneShaderProgramRecord) (bindings : List SceneShaderBindingRecord)
    (stageIo : List SceneShaderStageIoRecord) (uniformBuffers : List SceneShaderUniformBufferRecord)
    (uniformMembers : List SceneShaderUniformMemberRecord) (spirv : List UInt32) : Except SceneBinaryError Bytes :=
  concat [
    encodeTable "shader program count" SceneShaderProgramRecord.put programs,
    encodeTable "shader stage-I/O count" SceneShaderStageIoRecord.put stageIo,
    encodeTable "shader uniform-buffer count" SceneShaderUniformBufferRecord.put uniformBuffers,
    encodeTable "shader uniform-member count" SceneShaderUniformMemberRecord.put uniformMembers,
    encodeTable "shader binding count" SceneShaderBindingRecord.put bindings,
    encodeTable "shader SPIR-V word count" putU32 spirv]

structure DecodedShaderPrograms where
  programs : List SceneShaderProgramRecord
  stageIo : List SceneShaderStageIoRecord
  uniformBuffers : List SceneShaderUniformBufferRecord
  uniformMembers : List SceneShaderUniformMemberRecord
  bindings : List SceneShaderBindingRecord
  spirv : List UInt32

def decodeShaderPrograms : Decoder DecodedShaderPrograms := return {
  programs := ← table SceneShaderProgramRecord.decode
  stageIo := ← table SceneShaderStageIoRecord.decode
  uniformBuffers := ← table SceneShaderUniformBufferRecord.decode
  uniformMembers := ← table SceneShaderUniformMemberRecord.decode
  bindings := ← table SceneShaderBindingRecord.decode
  spirv := ← table u32 }

def encodeScriptBindings (scriptPrograms : List SceneScriptProgramRecord) : Except SceneBinaryError Bytes :=
  encodeTable "script program count" SceneScriptProgramRecord.put scriptPrograms

def decodeScriptBindings : Decoder (List SceneScriptProgramRecord) := table SceneScriptProgramRecord.decode

def encodeDynamicText (texts : List SceneDynamicTextRecord) (glyphs : List SceneDynamicTextGlyphRecord) :
    Except SceneBinaryError Bytes :=
  concat [
    encodeTable "dynamic text count" SceneDynamicTextRecord.put texts,
    encodeTable "dynamic text glyph count" SceneDynamicTextGlyphRecord.put glyphs]

def decodeDynamicText : Decoder (List SceneDynamicTextRecord × List SceneDynamicTextGlyphRecord) :=
  return (← table SceneDynamicTextRecord.decode, ← table SceneDynamicTextGlyphRecord.decode)

def encodeUserPropertyBindings (bindings : List SceneUserPropertyBindingRecord) : Except SceneBinaryError Bytes :=
  encodeTable "user property binding count" SceneUserPropertyBindingRecord.put bindings

def decodeUserPropertyBindings : Decoder (List SceneUserPropertyBindingRecord) :=
  table SceneUserPropertyBindingRecord.decode

def encodePointerBindings (camera : SceneCameraParallaxRecord) (objectDepths : List SceneObjectParallaxDepthRecord) :
    Except SceneBinaryError Bytes :=
  concat [
    return camera.put,
    encodeTable "object parallax depth count" SceneObjectParallaxDepthRecord.put objectDepths]

def decodePointerBindings : Decoder (SceneCameraParallaxRecord × List SceneObjectParallaxDepthRecord) :=
  return (← SceneCameraParallaxRecord.decode, ← table SceneObjectParallaxDepthRecord.decode)

section Laws

/-- The encoder succeeds and the decoder undoes it. -/
def Encodes {α : Type} (encoded : Except SceneBinaryError Bytes) (decode : Decoder α) (a : α) : Prop :=
  ∃ bytes, encoded = .ok bytes ∧ Reads decode bytes a

/-- A decoder that reads the parts of a chunk one after another. -/
inductive Parts : {β : Type} → List (Except SceneBinaryError Bytes) → Decoder β → β → Prop where
  | done {β : Type} (b : β) : Parts [] (pure b) b
  | table {α β : Type} {record : Decoder α} {put : α → Bytes} {records : List α} {f : List α → Decoder β}
      {parts : List (Except SceneBinaryError Bytes)} {b : β} {name : String} [Decodes record put] :
      records.length < 2 ^ 32 → Parts parts (f records) b →
      Parts (encodeTable name put records :: parts) (table record >>= f) b
  | record {α β : Type} {record : Decoder α} {put : α → Bytes} {a : α} {f : α → Decoder β}
      {parts : List (Except SceneBinaryError Bytes)} {b : β} [Decodes record put] :
      Parts parts (f a) b → Parts (pure (put a) :: parts) (record >>= f) b

variable {α β : Type}

variable {parts : List (Except SceneBinaryError Bytes)} {b : β}

theorem Encodes.concat_cons {part : Except SceneBinaryError Bytes}
    {m : Decoder α} {f : α → Decoder β} {a : α} (h : Encodes part m a) (h' : Encodes (concat parts) (f a) b) :
    Encodes (concat (part :: parts)) (m >>= f) b := by
  obtain ⟨bytes, hpart, hread⟩ := h
  obtain ⟨rest, hparts, hrest⟩ := h'
  refine ⟨bytes ++ rest, ?_, hread.bind hrest⟩
  rw [concat, hpart, hparts]
  rfl

theorem encodes_table {record : Decoder α} {put : α → Bytes} [Decodes record put] {records : List α}
    (h : records.length < 2 ^ 32) (name : String) : Encodes (encodeTable name put records) (table record) records :=
  ⟨_, encodeTable_ok h name, reads_table h fun a _ => Decodes.reads a⟩

theorem Parts.encodes {m : Decoder β} (h : Parts parts m b) : Encodes (concat parts) m b := by
  induction h with
  | done b => exact ⟨[], rfl, Reads.pure b⟩
  | table h _ ih => exact Encodes.concat_cons (encodes_table h _) ih
  | record _ ih => exact Encodes.concat_cons ⟨_, rfl, Decodes.reads _⟩ ih

theorem reads_decodeString {value : Text} (h : value.bytes.length < 2 ^ 32) :
    Reads decodeString (putU32 (UInt32.ofNat value.bytes.length) ++ value.bytes) value := by
  have hlen : (UInt32.ofNat value.bytes.length).toNat = value.bytes.length := by
    rw [UInt32.toNat_ofNat', Nat.mod_eq_of_lt h]
  have hutf8 : fromUtf8 value.bytes = pure value := dif_pos value.valid
  have hbytes : Reads (bytes (UInt32.ofNat value.bytes.length).toNat >>= fromUtf8) value.bytes value := by
    rw [hlen]
    have hread := (reads_bytes value.bytes).bind (f := fromUtf8) (hutf8 ▸ Reads.pure value)
    rwa [List.append_nil] at hread
  have hu32 : Reads u32 (putU32 (UInt32.ofNat value.bytes.length)) (UInt32.ofNat value.bytes.length) :=
    Decodes.reads _
  exact hu32.bind hbytes

variable {strings : List Text}

theorem encodeStrings_ok (h : ∀ value ∈ strings, value.bytes.length < 2 ^ 32) : encodeStrings strings =
      .ok (strings.flatMap fun value => putU32 (UInt32.ofNat value.bytes.length) ++ value.bytes) := by
  induction strings with
  | nil => rfl
  | cons value strings ih =>
    rw [encodeStrings, checkedU32_ok (h value (by simp)), ih fun v hv => h v (by simp [hv])]
    rfl

theorem encodes_stringTable (hcount : strings.length < 2 ^ 32) (h : ∀ value ∈ strings, value.bytes.length < 2 ^ 32) :
    Encodes (encodeStringTable strings) decodeStringTable strings := by
  refine ⟨_, ?_, reads_table hcount fun value hv => reads_decodeString (h value hv)⟩
  rw [encodeStringTable, checkedU32_ok hcount, encodeStrings_ok h]
  rfl

end Laws

end TensorDE.Scene
