import TensorDE.Lib.Maps
import TensorDE.Scene.Chunks

set_option linter.dupNamespace false

namespace TensorDE.Scene

open Bytes Codec Effect Cursor Maps

def sceneBinaryMagic : Bytes := ofAscii "GSCNENG1"

def sceneBinaryVersion : UInt32 := 51

def sceneBinaryMinReadVersion : UInt32 := sceneBinaryVersion

def sceneBinaryEndiannessLittle : UInt8 := 1

def sceneFeatureDescriptorHeap : UInt64 := 1 <<< (0 : UInt64)

def sceneFeatureRenderGraph : UInt64 := 1 <<< (1 : UInt64)

def sceneFeatureEmbeddedPayloads : UInt64 := 1 <<< (2 : UInt64)

def sceneFeatureWeSemantics : UInt64 := 1 <<< (3 : UInt64)

def sceneDefaultFeatureFlags : UInt64 :=
  sceneFeatureDescriptorHeap ||| sceneFeatureRenderGraph ||| sceneFeatureEmbeddedPayloads ||| sceneFeatureWeSemantics

def headerLen : Nat := 36

def chunkEntryLen : Nat := 32

def chunkKind (name : String) : UInt32 := UInt32.ofNat (ofLe (ofAscii name))

def chunkStringTable : UInt32 := chunkKind "STRS"

def chunkProject : UInt32 := chunkKind "PROJ"

def chunkSceneObject : UInt32 := chunkKind "OBJT"

def chunkResource : UInt32 := chunkKind "RSRC"

def chunkResourcePayload : UInt32 := chunkKind "PAYL"

def chunkTexture : UInt32 := chunkKind "TEXR"

def chunkTextureMip : UInt32 := chunkKind "TXMP"

def chunkTexturePayload : UInt32 := chunkKind "TXPD"

def chunkMaterial : UInt32 := chunkKind "MTRL"

def chunkEffect : UInt32 := chunkKind "EFFT"

def chunkTimeline : UInt32 := chunkKind "TMLN"

def chunkMesh : UInt32 := chunkKind "MESH"

def chunkPuppet : UInt32 := chunkKind "PUPP"

def chunkParticle : UInt32 := chunkKind "PART"

def chunkAudio : UInt32 := chunkKind "AUDO"

def chunkScriptBinding : UInt32 := chunkKind "SCRP"

def chunkPointerBinding : UInt32 := chunkKind "PNTR"

def chunkUserPropertyBinding : UInt32 := chunkKind "UBND"

def chunkRenderGraph : UInt32 := chunkKind "RGRF"

def chunkImageTarget : UInt32 := chunkKind "IMGT"

def chunkShaderContract : UInt32 := chunkKind "SHDR"

def chunkShaderProgram : UInt32 := chunkKind "SPRV"

def chunkDynamicText : UInt32 := chunkKind "DTXT"

def requiredSceneChunks : List UInt32 :=
  [chunkStringTable, chunkProject, chunkSceneObject, chunkResource, chunkResourcePayload, chunkTexture,
   chunkTextureMip, chunkTexturePayload, chunkMaterial, chunkEffect, chunkTimeline, chunkMesh, chunkPuppet,
   chunkParticle, chunkAudio, chunkScriptBinding, chunkPointerBinding, chunkUserPropertyBinding, chunkRenderGraph,
   chunkImageTarget, chunkShaderContract, chunkShaderProgram, chunkDynamicText]

def SceneStringId.none : SceneStringId := ⟨0xffffffff⟩

def F32.zero : F32 := ⟨0⟩

def F32.one : F32 := ⟨0x3f800000⟩

def emptyProjectRecord : SceneProjectRecord where
  title := .none
  wallpaperType := .none
  sceneFile := .none
  preview := .none
  propertiesJson := .none
  logicalWidth := 0
  logicalHeight := 0
  clearColor := #v[.zero, .zero, .zero, .one]
  ambientColor := #v[.zero, .zero, .zero, .one]
  skylightColor := #v[.zero, .zero, .zero, .one]
  cameraEye := ⟨.zero, .zero, .zero⟩
  cameraCenter := ⟨.zero, .zero, ⟨0xbf800000⟩⟩ -- -1.0
  cameraUp := ⟨.zero, .one, .zero⟩

structure SceneBinaryDocument where
  featureFlags : UInt64 := sceneDefaultFeatureFlags
  strings : List Text := []
  project : SceneProjectRecord := emptyProjectRecord
  resources : List SceneResourceRecord := []
  resourcePayload : Bytes := []
  textures : List SceneTextureRecord := []
  textureMips : List SceneTextureMipRecord := []
  textureSequenceFrames : List SceneTextureSequenceFrameRecord := []
  texturePayload : Bytes := []
  objects : List SceneObjectRecord := []
  objectEffects : List SceneObjectEffectRecord := []
  objectAnimationLayers : List SceneObjectAnimationLayerRecord := []
  objectTransformTracks : List SceneObjectTransformTrackRecord := []
  objectTransformChannels : List SceneObjectTransformChannelRecord := []
  objectTransformKeyframes : List SceneObjectTransformKeyframeRecord := []
  puppetAnimationClips : List ScenePuppetAnimationClipRecord := []
  puppetAnimationTracks : List ScenePuppetAnimationTrackRecord := []
  puppetAnimationTransformSamples : List ScenePuppetAnimationTransformSampleRecord := []
  puppetAnimationOpacitySamples : List F32 := []
  materials : List SceneMaterialRecord := []
  materialPasses : List SceneMaterialPassRecord := []
  materialTextures : List SceneMaterialTextureRecord := []
  materialConstants : List SceneMaterialConstantRecord := []
  meshes : List SceneMeshRecord := []
  meshVertices : List SceneMeshVertexRecord := []
  meshIndices : List UInt32 := []
  meshSourceRecords : List SceneMeshSourceRecord := []
  meshClippingSubdraws : List SceneMeshClippingSubdrawRecord := []
  meshClippingSourceOrdinals : List UInt32 := []
  meshClippingSlices : List SceneMeshClippingSliceRecord := []
  puppets : List ScenePuppetRecord := []
  puppetBones : List ScenePuppetBoneRecord := []
  puppetAttachments : List ScenePuppetAttachmentRecord := []
  particles : List SceneParticleSystemRecord := []
  effects : List SceneEffectRecord := []
  effectPasses : List SceneEffectPassRecord := []
  effectBindings : List SceneEffectBindingRecord := []
  effectCombos : List SceneEffectComboRecord := []
  effectFbos : List SceneEffectFboRecord := []
  renderGraphs : List SceneRenderGraphRecord := []
  renderPasses : List SceneRenderPassRecord := []
  renderBindings : List SceneRenderBindingRecord := []
  unsupported : List SceneUnsupportedRecord := []
  imageTargets : List SceneImageTargetRecord := []
  shaderContracts : List SceneShaderContractRecord := []
  shaderConstantNames : List SceneStringId := []
  shaderPrograms : List SceneShaderProgramRecord := []
  shaderBindings : List SceneShaderBindingRecord := []
  shaderStageIo : List SceneShaderStageIoRecord := []
  shaderUniformBuffers : List SceneShaderUniformBufferRecord := []
  shaderUniformMembers : List SceneShaderUniformMemberRecord := []
  shaderSpirv : List UInt32 := []
  scriptPrograms : List SceneScriptProgramRecord := []
  dynamicTexts : List SceneDynamicTextRecord := []
  dynamicTextGlyphs : List SceneDynamicTextGlyphRecord := []
  userPropertyBindings : List SceneUserPropertyBindingRecord := []
  cameraParallax : SceneCameraParallaxRecord := ⟨false, .zero, .zero, .zero⟩
  objectParallaxDepths : List SceneObjectParallaxDepthRecord := []

structure SceneEncodedChunk where
  kind : UInt32
  itemCount : UInt32
  data : Bytes

structure SceneDecodedChunk where
  payload : Bytes
  itemCount : UInt32

abbrev Chunks := Map UInt32 SceneDecodedChunk

variable (kind : UInt32)

def encodedChunk (count : Nat) (name : String) (encoded : Except SceneBinaryError Bytes) :
    Except SceneBinaryError SceneEncodedChunk := do
  let itemCount ← checkedU32 count name
  let data ← encoded
  return { kind, itemCount, data }

def emptyCountChunk : SceneEncodedChunk := { kind, itemCount := 0, data := putU32 0 }

def saturatingAdd (a b : Nat) : Nat := min (a + b) (2 ^ 64 - 1)

variable (document : SceneBinaryDocument)

def encodeChunks : Except SceneBinaryError (List SceneEncodedChunk) :=
  List.mapM id [
    encodedChunk chunkStringTable document.strings.length "string count" (encodeStringTable document.strings),
    return { kind := chunkProject, itemCount := 1, data := encodeProject document.project },
    encodedChunk chunkSceneObject document.objects.length "object count"
      (encodeSceneObjects document.objects document.objectEffects),
    encodedChunk chunkResource document.resources.length "resource count"
      (return encodeResources document.resources),
    encodedChunk chunkResourcePayload document.resources.length "resource payload owner count"
      (return document.resourcePayload),
    encodedChunk chunkTexture document.textures.length "texture count"
      (return encodeTextures document.textures document.textureSequenceFrames),
    encodedChunk chunkTextureMip document.textureMips.length "texture mip count"
      (return encodeTextureMips document.textureMips),
    encodedChunk chunkTexturePayload document.textures.length "texture payload owner count"
      (return document.texturePayload),
    encodedChunk chunkMaterial document.materials.length "material count"
      (encodeMaterials document.materials document.materialPasses document.materialTextures
        document.materialConstants),
    encodedChunk chunkMesh document.meshes.length "mesh count"
      (encodeMeshes document.meshes document.meshVertices document.meshIndices document.meshSourceRecords
        document.meshClippingSubdraws document.meshClippingSourceOrdinals document.meshClippingSlices),
    encodedChunk chunkEffect document.effects.length "effect count"
      (encodeEffects document.effects document.effectPasses document.effectBindings document.effectCombos
        document.effectFbos),
    encodedChunk chunkTimeline
      (saturatingAdd (saturatingAdd document.objectAnimationLayers.length document.puppetAnimationClips.length)
        document.objectTransformTracks.length)
      "timeline primary record count"
      (encodeTimelines document.objectAnimationLayers document.puppetAnimationClips document.puppetAnimationTracks
        document.puppetAnimationTransformSamples document.puppetAnimationOpacitySamples
        document.objectTransformTracks document.objectTransformChannels document.objectTransformKeyframes),
    encodedChunk chunkPuppet document.puppets.length "puppet count"
      (encodePuppets document.puppets document.puppetBones document.puppetAttachments),
    encodedChunk chunkParticle document.particles.length "particle count" (encodeParticles document.particles),
    return emptyCountChunk chunkAudio,
    encodedChunk chunkScriptBinding document.scriptPrograms.length "script binding count"
      (encodeScriptBindings document.scriptPrograms),
    encodedChunk chunkDynamicText document.dynamicTexts.length "dynamic text count"
      (encodeDynamicText document.dynamicTexts document.dynamicTextGlyphs),
    encodedChunk chunkPointerBinding document.objectParallaxDepths.length "object parallax depth count"
      (encodePointerBindings document.cameraParallax document.objectParallaxDepths),
    encodedChunk chunkUserPropertyBinding document.userPropertyBindings.length "user property binding count"
      (encodeUserPropertyBindings document.userPropertyBindings),
    encodedChunk chunkRenderGraph document.renderGraphs.length "render graph count"
      (encodeRenderGraphs document.renderGraphs document.renderPasses document.renderBindings document.unsupported),
    encodedChunk chunkImageTarget document.imageTargets.length "image target count"
      (return encodeImageTargets document.imageTargets),
    encodedChunk chunkShaderContract document.shaderContracts.length "shader contract count"
      (encodeShaderContracts document.shaderContracts document.shaderConstantNames),
    encodedChunk chunkShaderProgram document.shaderPrograms.length "shader program count"
      (encodeShaderPrograms document.shaderPrograms document.shaderBindings document.shaderStageIo
        document.shaderUniformBuffers document.shaderUniformMembers document.shaderSpirv)]

def okOr {ε α : Type} (value : Option α) (error : ε) : Except ε α :=
  match value with
  | some a => .ok a
  | none => .error error

def putEntry (chunk : SceneEncodedChunk) (payloadOffset len : UInt64) : Bytes :=
  [putU32 chunk.kind, putU32 0, putU64 payloadOffset, putU64 len, putU32 chunk.itemCount, putU32 0].flatten

/-- The chunk table: each entry carries the offset at which its payload will stand. -/
def writeEntries : List SceneEncodedChunk → Nat → Except SceneBinaryError Bytes
  | [], _ => return []
  | chunk :: chunks, payloadOffset => do
    let len ← checkedU64 chunk.data.length "chunk length"
    let next ← okOr (checkedAdd payloadOffset chunk.data.length) (.sizeOverflow "chunk payload offset")
    let rest ← writeEntries chunks next
    return putEntry chunk (UInt64.ofNat payloadOffset) len ++ rest

def putHeader (featureFlags : UInt64) (chunkCount : UInt32) : Bytes :=
  [sceneBinaryMagic, putU32 sceneBinaryVersion, [sceneBinaryEndiannessLittle], [0, 0, 0], putU64 featureFlags,
   putU32 chunkCount, putU64 (UInt64.ofNat headerLen)].flatten

def writeSceneBinary : Except SceneBinaryError Bytes := do
  let chunks ← encodeChunks document
  let payloadStart := headerLen + chunks.length * chunkEntryLen
  let count ← checkedU32 chunks.length "chunk count"
  let entries ← writeEntries chunks payloadStart
  return putHeader document.featureFlags count ++ entries ++ chunks.flatMap (·.data)

/-- A reading step: it can return an error, and its indexing and arithmetic can panic. -/
abbrev Read (α : Type) := Except (Fault SceneBinaryError) α

def add (a b : Nat) : Read Nat := okOr (checkedAdd a b) .panic

def checkedMul (a b : Nat) : Option Nat := if a * b < 2 ^ 64 then some (a * b) else none

def mul (a b : Nat) : Read Nat := okOr (checkedMul a b) .panic

variable (data : Bytes)

/-- `&data[start..stop]`. -/
def index (start stop : Nat) : Read Bytes :=
  if start ≤ stop ∧ stop ≤ data.length then .ok ((data.drop start).take (stop - start)) else .error .panic

/-- `data.get(offset..offset + width)`, taken as an array and read as a little-endian number. -/
def readAt (width : Nat) (data : Bytes) (offset : Nat) (name : String) : Read Nat := do
  let stop ← add offset width
  if offset ≤ stop ∧ stop ≤ data.length then
    let bytes := (data.drop offset).take (stop - offset)
    if bytes.length = width then return ofLe bytes else throw .panic
  else throw (.error (.truncated name))

def readU32At (offset : Nat) (name : String) : Read UInt32 :=
  return UInt32.ofNat (← readAt 4 data offset name)

def readU64At (offset : Nat) (name : String) : Read UInt64 :=
  return UInt64.ofNat (← readAt 8 data offset name)

def readEntry (tableOffset : Nat) (chunks : Chunks) (entry : Nat) : Read Chunks := do
  let base ← add tableOffset (← mul entry chunkEntryLen)
  let kind ← readU32At data base "chunk kind"
  let offset ← readU64At data (← add base 8) "chunk offset"
  let len ← readU64At data (← add base 16) "chunk length"
  let itemCount ← readU32At data (← add base 24) "chunk item count"
  let stop ← okOr (checkedAdd offset.toNat len.toNat) (.error (.sizeOverflow "chunk end"))
  if data.length < stop then throw (.error (.truncated "chunk payload"))
  let payload ← index data offset.toNat stop
  if (chunks.find kind).isSome then throw (.error (.duplicateChunk kind))
  return chunks.insert kind { payload, itemCount }

variable (chunks : Chunks)

def validateRequiredChunks : Read Unit :=
  forM requiredSceneChunks fun kind => if (chunks.find kind).isSome then pure () else throw (.error (.missingChunk kind))

def chunkPayload (kind : UInt32) : Read Bytes :=
  okOr ((chunks.find kind).map (·.payload)) (.error (.missingChunk kind))

def ensureChunkCount (kind : UInt32) (chunk : String) (actual : Nat) : Read Unit := do
  let decoded ← okOr (chunks.find kind) (.error (.missingChunk kind))
  if decoded.itemCount.toNat = actual then return ()
  else throw (.error (.countMismatch chunk decoded.itemCount actual))

/-- A chunk's payload, decoded and held against the count in the chunk table. -/
def readChunk {α : Type} (kind : UInt32) (labels : Labels) (decode : Decoder α) (chunk : String)
    (count : α → Nat) : Read α := do
  let value ← decode.run labels (← chunkPayload chunks kind)
  ensureChunkCount chunks kind chunk (count value)
  return value

/-- The timeline's count is a sum, added up as the reader does. -/
def readTimelines : Read SceneTimelineRecords := do
  let records ← decodeTimelines.run timelineLabels (← chunkPayload chunks chunkTimeline)
  let layers ← add records.objectAnimationLayers.length records.puppetAnimationClips.length
  ensureChunkCount chunks chunkTimeline "timeline animation layers" (← add layers records.objectTransformTracks.length)
  return records

def decodeChunks (featureFlags : UInt64) : Read SceneBinaryDocument := do
  let strings ← readChunk chunks chunkStringTable chunkLabels decodeStringTable "string table" List.length
  let project ← readChunk chunks chunkProject chunkLabels decodeProject "project" fun _ => 1
  let resources ← readChunk chunks chunkResource chunkLabels decodeResources "resources" List.length
  let resourcePayload ← chunkPayload chunks chunkResourcePayload
  ensureChunkCount chunks chunkResourcePayload "resource payload owners" resources.length
  let (textures, textureSequenceFrames) ←
    readChunk chunks chunkTexture chunkLabels decodeTextures "textures" (·.1.length)
  let textureMips ← readChunk chunks chunkTextureMip chunkLabels decodeTextureMips "texture mips" List.length
  let texturePayload ← chunkPayload chunks chunkTexturePayload
  ensureChunkCount chunks chunkTexturePayload "texture payload owners" textures.length
  let (objects, objectEffects) ←
    readChunk chunks chunkSceneObject chunkLabels decodeSceneObjects "scene objects" (·.1.length)
  let material ← readChunk chunks chunkMaterial chunkLabels decodeMaterials "materials" (·.materials.length)
  let mesh ← readChunk chunks chunkMesh chunkLabels decodeMeshes "mesh" (·.meshes.length)
  let puppet ← readChunk chunks chunkPuppet chunkLabels decodePuppets "puppet" (·.puppets.length)
  let particles ← readChunk chunks chunkParticle chunkLabels decodeParticles "particle" List.length
  let effect ← readChunk chunks chunkEffect chunkLabels decodeEffects "effects" (·.effects.length)
  let timeline ← readTimelines chunks
  let renderGraph ← readChunk chunks chunkRenderGraph chunkLabels decodeRenderGraphs "render graphs" (·.graphs.length)
  let imageTargets ← readChunk chunks chunkImageTarget chunkLabels decodeImageTargets "image targets" List.length
  let (shaderContracts, shaderConstantNames) ←
    readChunk chunks chunkShaderContract chunkLabels decodeShaderContracts "shader contracts" (·.1.length)
  let shader ← readChunk chunks chunkShaderProgram chunkLabels decodeShaderPrograms "shader programs"
    (·.programs.length)
  let scriptPrograms ← readChunk chunks chunkScriptBinding chunkLabels decodeScriptBindings "script binding" List.length
  let (dynamicTexts, dynamicTextGlyphs) ←
    readChunk chunks chunkDynamicText chunkLabels decodeDynamicText "dynamic text" (·.1.length)
  let userPropertyBindings ←
    readChunk chunks chunkUserPropertyBinding chunkLabels decodeUserPropertyBindings "user property binding" List.length
  ensureChunkCount chunks chunkAudio "audio" 0
  let (cameraParallax, objectParallaxDepths) ←
    readChunk chunks chunkPointerBinding chunkLabels decodePointerBindings "pointer parallax bindings" (·.2.length)
  return {
    featureFlags, strings, project, resources, resourcePayload, textures, textureMips, textureSequenceFrames,
    texturePayload, objects, objectEffects
    objectAnimationLayers := timeline.objectAnimationLayers
    objectTransformTracks := timeline.objectTransformTracks
    objectTransformChannels := timeline.objectTransformChannels
    objectTransformKeyframes := timeline.objectTransformKeyframes
    puppetAnimationClips := timeline.puppetAnimationClips
    puppetAnimationTracks := timeline.puppetAnimationTracks
    puppetAnimationTransformSamples := timeline.puppetAnimationTransformSamples
    puppetAnimationOpacitySamples := timeline.puppetAnimationOpacitySamples
    materials := material.materials
    materialPasses := material.passes
    materialTextures := material.textures
    materialConstants := material.constants
    meshes := mesh.meshes
    meshVertices := mesh.vertices
    meshIndices := mesh.indices
    meshSourceRecords := mesh.sourceRecords
    meshClippingSubdraws := mesh.clippingSubdraws
    meshClippingSourceOrdinals := mesh.clippingSourceOrdinals
    meshClippingSlices := mesh.clippingSlices
    puppets := puppet.puppets
    puppetBones := puppet.bones
    puppetAttachments := puppet.attachments
    particles
    effects := effect.effects
    effectPasses := effect.passes
    effectBindings := effect.bindings
    effectCombos := effect.combos
    effectFbos := effect.fbos
    renderGraphs := renderGraph.graphs
    renderPasses := renderGraph.passes
    renderBindings := renderGraph.bindings
    unsupported := renderGraph.unsupported
    imageTargets, shaderContracts, shaderConstantNames
    shaderPrograms := shader.programs
    shaderBindings := shader.bindings
    shaderStageIo := shader.stageIo
    shaderUniformBuffers := shader.uniformBuffers
    shaderUniformMembers := shader.uniformMembers
    shaderSpirv := shader.spirv
    scriptPrograms, dynamicTexts, dynamicTextGlyphs, userPropertyBindings, cameraParallax, objectParallaxDepths }

def readSceneBinaryBytes : Read SceneBinaryDocument := do
  if data.length < headerLen then throw (.error (.truncated "header"))
  if (← index data 0 8) ≠ sceneBinaryMagic then throw (.error .invalidMagic)
  let version ← readU32At data 8 "version"
  if ¬ (sceneBinaryMinReadVersion ≤ version ∧ version ≤ sceneBinaryVersion) then
    throw (.error (.unsupportedVersion version))
  let endianness ← okOr data[12]? .panic
  if endianness ≠ sceneBinaryEndiannessLittle then throw (.error (.unsupportedEndianness endianness))
  let featureFlags ← readU64At data 16 "feature flags"
  let chunkCount ← readU32At data 24 "chunk count"
  let tableOffset ← readU64At data 28 "chunk table offset"
  let tableLen ← okOr (checkedMul chunkCount.toNat chunkEntryLen) (.error (.sizeOverflow "chunk table"))
  let tableEnd ← okOr (checkedAdd tableOffset.toNat tableLen) (.error (.sizeOverflow "chunk table end"))
  if data.length < tableEnd then throw (.error (.truncated "chunk table"))
  let chunks ← (List.range chunkCount.toNat).foldlM (readEntry data tableOffset.toNat) .empty
  validateRequiredChunks chunks
  decodeChunks chunks featureFlags

end TensorDE.Scene
