import TensorDE.Scene.Codec

set_option linter.dupNamespace false

namespace TensorDE.Scene

open Effect Cursor Decoder

def SceneUserPropertyPredicate.put : SceneUserPropertyPredicate → Bytes
  | .booleanValue => [putU32 1, putU32 0].flatten
  | .stringEquals value => [putU32 2, putStringId value].flatten

def SceneUserPropertyPredicate.decode : Decoder SceneUserPropertyPredicate := do
  let predicateKind ← u32
  let predicateValue ← u32
  match predicateKind with
  | 1 =>
    if predicateValue = 0 then return .booleanValue
    else fail (.invalidChunkValue "user property boolean predicate payload" predicateValue)
  | 2 => return .stringEquals ⟨predicateValue⟩
  | value => fail (.invalidChunkValue "user property predicate" value)

instance : Decodes SceneUserPropertyPredicate.decode SceneUserPropertyPredicate.put where
  reads predicate := by
    cases predicate with
    | booleanValue => exact Fields.reads (.step (.step (.done _)))
    | stringEquals value =>
      have h : Fields SceneUserPropertyPredicate.decode [putU32 2, putU32 value.val] (.stringEquals value) :=
        .step (.step (.done _))
      exact h.reads

/-- The three words that stand for an initializer order. -/
def checkInitializerOrder (count packedLow packedHigh : UInt32) : Decoder SceneParticleInitializerOrder :=
  match SceneParticleInitializerOrder.fromPacked count packedLow packedHigh with
  | some order => pure order
  | none => fail (.invalidChunkValue "particle initializer order" count)

instance (order : SceneParticleInitializerOrder) :
    Yields (checkInitializerOrder order.count.toUInt32 order.packedLow.toUInt32 order.packedHigh.toUInt32) order where
  run s := by
    rw [checkInitializerOrder, SceneParticleInitializerOrder.fromPacked_fields]
    rfl

def SceneProjectRecord.put (record : SceneProjectRecord) : Bytes :=
  [putStringId record.title, putStringId record.wallpaperType, putStringId record.sceneFile,
   putStringId record.preview, putStringId record.propertiesJson, putU32 record.logicalWidth,
   putU32 record.logicalHeight, putArray putF32 record.clearColor, putArray putF32 record.ambientColor,
   putArray putF32 record.skylightColor, putVec3 record.cameraEye, putVec3 record.cameraCenter,
   putVec3 record.cameraUp].flatten

def SceneProjectRecord.decode : Decoder SceneProjectRecord := return {
  title := ← stringId, wallpaperType := ← stringId, sceneFile := ← stringId, preview := ← stringId,
  propertiesJson := ← stringId, logicalWidth := ← u32, logicalHeight := ← u32, clearColor := ← array f32 4,
  ambientColor := ← array f32 4, skylightColor := ← array f32 4, cameraEye := ← vec3, cameraCenter := ← vec3,
  cameraUp := ← vec3 }

instance : Decodes SceneProjectRecord.decode SceneProjectRecord.put where
  reads _ := Fields.reads (by repeat constructor)

def SceneResourceRecord.put (record : SceneResourceRecord) : Bytes :=
  [putResourceId record.id, putTag record.kind, putStringId record.path, putStringId record.source,
   putU64 record.payloadOffset, putU64 record.payloadLen].flatten

def SceneResourceRecord.decode : Decoder SceneResourceRecord := return {
  id := ← resourceId, kind := ← tag "resource kind", path := ← stringId, source := ← stringId,
  payloadOffset := ← u64, payloadLen := ← u64 }

instance : Decodes SceneResourceRecord.decode SceneResourceRecord.put where
  reads _ := Fields.reads (by repeat constructor)

def SceneTextureRecord.put (record : SceneTextureRecord) : Bytes :=
  [putResourceId record.resource, putU32 (Tag.toU32 record.format), putU32 record.sourceRuntimeFormat,
   putU32 record.payloadFormat, putU32 (Tag.toU32 record.samplerFilter),
   putU32 (Tag.toU32 record.samplerAddressMode), putU32 record.width, putU32 record.height,
   putU32 record.storageWidth, putU32 record.storageHeight, putU32 record.mipStart, putU32 record.mipCount,
   putStringId record.texvTag, putStringId record.texbTag, putStringId record.sequenceTag,
   putU32 record.sequenceCellWidth, putU32 record.sequenceCellHeight, putU32 record.sequenceFrameStart,
   putU32 record.sequenceFrameCount, putU64 record.payloadOffset, putU64 record.payloadLen,
   putArray putU32 record.alphaCoverageRows].flatten

def SceneTextureRecord.decode : Decoder SceneTextureRecord := do
  let resource ← resourceId
  let formatRaw ← u32
  let sourceRuntimeFormat ← u32
  let payloadFormat ← u32
  let samplerFilterRaw ← u32
  let samplerAddressModeRaw ← u32
  let width ← u32
  let height ← u32
  let storageWidth ← u32
  let storageHeight ← u32
  let mipStart ← u32
  let mipCount ← u32
  let texvTag ← stringId
  let texbTag ← stringId
  let sequenceTag ← stringId
  let sequenceCellWidth ← u32
  let sequenceCellHeight ← u32
  let sequenceFrameStart ← u32
  let sequenceFrameCount ← u32
  let payloadOffset ← u64
  let payloadLen ← u64
  let alphaCoverageRows ← array u32 sceneTextureAlphaCoverageGridSize
  return {
    resource, format := ← checkTag "texture format" formatRaw, sourceRuntimeFormat, payloadFormat,
    samplerFilter := ← checkTag "texture sampler filter" samplerFilterRaw,
    samplerAddressMode := ← checkTag "texture sampler address mode" samplerAddressModeRaw, width, height,
    storageWidth, storageHeight, mipStart, mipCount, texvTag, texbTag, sequenceTag, sequenceCellWidth,
    sequenceCellHeight, sequenceFrameStart, sequenceFrameCount, payloadOffset, payloadLen, alphaCoverageRows }

instance : Decodes SceneTextureRecord.decode SceneTextureRecord.put where
  reads _ := Fields.reads (by repeat constructor)

def SceneTextureSequenceFrameRecord.put (record : SceneTextureSequenceFrameRecord) : Bytes :=
  [putU32 record.resourceIndex, putF32 record.duration, putArray putF32 record.origin,
   putArray putF32 record.axisX, putArray putF32 record.axisY].flatten

def SceneTextureSequenceFrameRecord.decode : Decoder SceneTextureSequenceFrameRecord := return {
  resourceIndex := ← u32, duration := ← f32, origin := ← array f32 2, axisX := ← array f32 2,
  axisY := ← array f32 2 }

instance : Decodes SceneTextureSequenceFrameRecord.decode SceneTextureSequenceFrameRecord.put where
  reads _ := Fields.reads (by repeat constructor)

def SceneTextureMipRecord.put (record : SceneTextureMipRecord) : Bytes :=
  [putU32 record.width, putU32 record.height, putU64 record.payloadOffset, putU64 record.payloadLen].flatten

def SceneTextureMipRecord.decode : Decoder SceneTextureMipRecord := return {
  width := ← u32, height := ← u32, payloadOffset := ← u64, payloadLen := ← u64 }

instance : Decodes SceneTextureMipRecord.decode SceneTextureMipRecord.put where
  reads _ := Fields.reads (by repeat constructor)

def SceneObjectRecord.put (record : SceneObjectRecord) : Bytes :=
  [putU32 record.id.val, putU32 record.weId, putStringId record.name, putTag record.kind,
   putResourceId record.resource, putU32 record.material.val, putU32 record.parentWeId,
   putStringId record.attachment, putVec3 record.origin, putVec3 record.angles, putVec3 record.scale,
   putF32 record.cameraZoom, putVec3 record.color, putF32 record.alpha, putBool record.visible,
   putI32 record.colorBlendMode, putI32 record.sortOrder, putU32 record.effectStart, putU32 record.effectCount,
   putU32 record.renderGraph].flatten

def SceneObjectRecord.decode : Decoder SceneObjectRecord := return {
  id := ⟨← u32⟩, weId := ← u32, name := ← stringId, kind := ← tag "object kind", resource := ← resourceId,
  material := ⟨← u32⟩, parentWeId := ← u32, attachment := ← stringId, origin := ← vec3, angles := ← vec3,
  scale := ← vec3, cameraZoom := ← f32, color := ← vec3, alpha := ← f32, visible := ← bool,
  colorBlendMode := ← i32, sortOrder := ← i32, effectStart := ← u32, effectCount := ← u32, renderGraph := ← u32 }

instance : Decodes SceneObjectRecord.decode SceneObjectRecord.put where
  reads _ := Fields.reads (by repeat constructor)

def SceneObjectEffectRecord.put (record : SceneObjectEffectRecord) : Bytes :=
  [putU32 record.object.val, putU32 record.effect.val, putStringId record.name, putU32 record.instanceId,
   putBool record.visible].flatten

def SceneObjectEffectRecord.decode : Decoder SceneObjectEffectRecord := return {
  object := ⟨← u32⟩, effect := ⟨← u32⟩, name := ← stringId, instanceId := ← u32, visible := ← bool }

instance : Decodes SceneObjectEffectRecord.decode SceneObjectEffectRecord.put where
  reads _ := Fields.reads (by repeat constructor)

def SceneMaterialRecord.put (record : SceneMaterialRecord) : Bytes :=
  [putU32 record.id.val, putResourceId record.resource, putU32 record.passStart, putU32 record.passCount].flatten

def SceneMaterialRecord.decode : Decoder SceneMaterialRecord := return {
  id := ⟨← u32⟩, resource := ← resourceId, passStart := ← u32, passCount := ← u32 }

instance : Decodes SceneMaterialRecord.decode SceneMaterialRecord.put where
  reads _ := Fields.reads (by repeat constructor)

def SceneMaterialPassRecord.put (record : SceneMaterialPassRecord) : Bytes :=
  [putU32 record.material.val, putStringId record.shaderKey, putStringId record.target,
   putU32 record.textureStart, putU32 record.textureCount, putU32 record.constantStart,
   putU32 record.constantCount, putTag record.pipelineBlend, putTag record.depthTest,
   putBool record.depthWrite, putTag record.cullMode, putStringId record.alphaWriting,
   putBool record.clearTarget].flatten

def SceneMaterialPassRecord.decode : Decoder SceneMaterialPassRecord := return {
  material := ⟨← u32⟩, shaderKey := ← stringId, target := ← stringId, textureStart := ← u32,
  textureCount := ← u32, constantStart := ← u32, constantCount := ← u32,
  pipelineBlend := ← tag "pipeline blend", depthTest := ← tag "depth test", depthWrite := ← bool,
  cullMode := ← tag "cull mode", alphaWriting := ← stringId, clearTarget := ← bool }

instance : Decodes SceneMaterialPassRecord.decode SceneMaterialPassRecord.put where
  reads _ := Fields.reads (by repeat constructor)

def SceneMaterialTextureRecord.put (record : SceneMaterialTextureRecord) : Bytes :=
  [putU32 record.slot, putResourceId record.resource, putStringId record.path].flatten

def SceneMaterialTextureRecord.decode : Decoder SceneMaterialTextureRecord := return {
  slot := ← u32, resource := ← resourceId, path := ← stringId }

instance : Decodes SceneMaterialTextureRecord.decode SceneMaterialTextureRecord.put where
  reads _ := Fields.reads (by repeat constructor)

def SceneMaterialConstantRecord.put (record : SceneMaterialConstantRecord) : Bytes :=
  [putStringId record.name, putStringId record.valueJson].flatten

def SceneMaterialConstantRecord.decode : Decoder SceneMaterialConstantRecord := return {
  name := ← stringId, valueJson := ← stringId }

instance : Decodes SceneMaterialConstantRecord.decode SceneMaterialConstantRecord.put where
  reads _ := Fields.reads (by repeat constructor)

def SceneMeshRecord.put (record : SceneMeshRecord) : Bytes :=
  [putU32 record.object.val, putU32 record.material.val, putU32 record.vertexStart, putU32 record.vertexCount,
   putU32 record.indexStart, putU32 record.indexCount, putF32 record.width, putF32 record.height,
   putVec3 record.boundsMin, putVec3 record.boundsMax].flatten

def SceneMeshRecord.decode : Decoder SceneMeshRecord := return {
  object := ⟨← u32⟩, material := ⟨← u32⟩, vertexStart := ← u32, vertexCount := ← u32, indexStart := ← u32,
  indexCount := ← u32, width := ← f32, height := ← f32, boundsMin := ← vec3, boundsMax := ← vec3 }

instance : Decodes SceneMeshRecord.decode SceneMeshRecord.put where
  reads _ := Fields.reads (by repeat constructor)

def SceneMeshVertexRecord.put (record : SceneMeshVertexRecord) : Bytes :=
  [putVec3 record.position, putArray putF32 record.uv, putArray putU32 record.blendIndices,
   putArray putF32 record.blendWeights].flatten

def SceneMeshVertexRecord.decode : Decoder SceneMeshVertexRecord := return {
  position := ← vec3, uv := ← array f32 2, blendIndices := ← array u32 4, blendWeights := ← array f32 4 }

instance : Decodes SceneMeshVertexRecord.decode SceneMeshVertexRecord.put where
  reads _ := Fields.reads (by repeat constructor)

def SceneMeshSourceRecord.put (record : SceneMeshSourceRecord) : Bytes :=
  [putU32 record.mesh, putU32 record.sourceIndex, putU32 record.localIndexOffset, putU32 record.indexStart,
   putU32 record.indexCount].flatten

def SceneMeshSourceRecord.decode : Decoder SceneMeshSourceRecord := return {
  mesh := ← u32, sourceIndex := ← u32, localIndexOffset := ← u32, indexStart := ← u32, indexCount := ← u32 }

instance : Decodes SceneMeshSourceRecord.decode SceneMeshSourceRecord.put where
  reads _ := Fields.reads (by repeat constructor)

def SceneMeshClippingSubdrawRecord.put (record : SceneMeshClippingSubdrawRecord) : Bytes :=
  [putU32 record.mesh, putU64 record.sourceQword, putStringId record.mask, putResourceId record.maskResource,
   putU32 record.rawFlags, putU32 record.targetSourceStart, putU32 record.targetSourceCount,
   putU32 record.maskSourceStart, putU32 record.maskSourceCount].flatten

def SceneMeshClippingSubdrawRecord.decode : Decoder SceneMeshClippingSubdrawRecord := return {
  mesh := ← u32, sourceQword := ← u64, mask := ← stringId, maskResource := ← resourceId, rawFlags := ← u32,
  targetSourceStart := ← u32, targetSourceCount := ← u32, maskSourceStart := ← u32, maskSourceCount := ← u32 }

instance : Decodes SceneMeshClippingSubdrawRecord.decode SceneMeshClippingSubdrawRecord.put where
  reads _ := Fields.reads (by repeat constructor)

def SceneMeshClippingSliceRecord.put (record : SceneMeshClippingSliceRecord) : Bytes :=
  [putU32 record.mesh, putU32 record.subdraw, putTag record.role, putU32 record.indexStart,
   putU32 record.indexCount].flatten

def SceneMeshClippingSliceRecord.decode : Decoder SceneMeshClippingSliceRecord := return {
  mesh := ← u32, subdraw := ← u32, role := ← tag "mesh clipping slice role", indexStart := ← u32,
  indexCount := ← u32 }

instance : Decodes SceneMeshClippingSliceRecord.decode SceneMeshClippingSliceRecord.put where
  reads _ := Fields.reads (by repeat constructor)

def ScenePuppetRecord.put (record : ScenePuppetRecord) : Bytes :=
  [putU32 record.object.val, putResourceId record.resource, putU32 record.meshStart, putU32 record.meshCount,
   putU32 record.boneStart, putU32 record.boneCount, putU32 record.attachmentStart,
   putU32 record.attachmentCount].flatten

def ScenePuppetRecord.decode : Decoder ScenePuppetRecord := return {
  object := ⟨← u32⟩, resource := ← resourceId, meshStart := ← u32, meshCount := ← u32, boneStart := ← u32,
  boneCount := ← u32, attachmentStart := ← u32, attachmentCount := ← u32 }

instance : Decodes ScenePuppetRecord.decode ScenePuppetRecord.put where
  reads _ := Fields.reads (by repeat constructor)

def ScenePuppetBoneRecord.put (record : ScenePuppetBoneRecord) : Bytes :=
  [putU32 record.puppet, putU32 record.boneIndex, putStringId record.name, putI32 record.simulationType,
   putI32 record.parentIndex, putArray putF32 record.localBindMatrix, putStringId record.simulationJson].flatten

def ScenePuppetBoneRecord.decode : Decoder ScenePuppetBoneRecord := return {
  puppet := ← u32, boneIndex := ← u32, name := ← stringId, simulationType := ← i32, parentIndex := ← i32,
  localBindMatrix := ← array f32 16, simulationJson := ← stringId }

instance : Decodes ScenePuppetBoneRecord.decode ScenePuppetBoneRecord.put where
  reads _ := Fields.reads (by repeat constructor)

def ScenePuppetAttachmentRecord.put (record : ScenePuppetAttachmentRecord) : Bytes :=
  [putU32 record.puppet, putU32 record.boneIndex, putStringId record.name, putArray putF32 record.localMatrix].flatten

def ScenePuppetAttachmentRecord.decode : Decoder ScenePuppetAttachmentRecord := return {
  puppet := ← u32, boneIndex := ← u32, name := ← stringId, localMatrix := ← array f32 16 }

instance : Decodes ScenePuppetAttachmentRecord.decode ScenePuppetAttachmentRecord.put where
  reads _ := Fields.reads (by repeat constructor)

def SceneParticleSystemRecord.put (record : SceneParticleSystemRecord) : Bytes :=
  [putU32 record.object.val, putResourceId record.resource, putU32 record.material.val,
   putU32 record.parentParticleIndex, putTag record.childType, putF32 record.childProbability,
   putU32 record.childMaxCount, putTag record.simulation, putTag record.emitterShape, putTag record.renderer,
   putU32 record.moduleMask.val, putU32 record.initializerOrder.count.toUInt32,
   putU32 record.initializerOrder.packedLow.toUInt32, putU32 record.initializerOrder.packedHigh.toUInt32,
   putU32 record.flags, putU32 record.maxCount, putTag record.animationMode, putF32 record.sequenceMultiplier,
   putF32 record.startTime, putF32 record.instanceTimeScale, putU32 record.instanceColorEnabled,
   putVec3 record.instanceColor, putVec3 record.colorReference, putF32 record.instanceCountScale,
   putF32 record.rate, putVec3 record.emitterOrigin, putVec3 record.emitterDirections,
   putVec3 record.distanceMin, putVec3 record.distanceMax, putF32 record.emitterSpeedMin,
   putF32 record.emitterSpeedMax, putF32 record.lifetimeMin, putF32 record.lifetimeMax, putF32 record.sizeMin,
   putF32 record.sizeMax, putVec3 record.velocityMin, putVec3 record.velocityMax, putVec3 record.colorMin,
   putVec3 record.colorMax, putF32 record.alphaMin, putF32 record.alphaMax, putF32 record.rotationMin,
   putF32 record.rotationMax, putF32 record.turbulenceOffset, putF32 record.turbulenceScale,
   putF32 record.turbulenceSpeedMin, putF32 record.turbulenceSpeedMax, putF32 record.turbulentVelocityPhaseMin,
   putF32 record.turbulentVelocityPhaseMax, putF32 record.turbulentVelocityTimeScale,
   putVec3 record.turbulentVelocityRight, putVec3 record.turbulentVelocityForward,
   putF32 record.turbulenceOperatorScale, putF32 record.turbulenceOperatorSpeedMin,
   putF32 record.turbulenceOperatorSpeedMax, putF32 record.turbulenceOperatorPhaseMin,
   putF32 record.turbulencePhaseMax, putF32 record.turbulenceOperatorTimeScale, putVec3 record.turbulenceMask,
   putVec3 record.angularVelocityMin, putVec3 record.angularVelocityMax, putVec3 record.gravity,
   putF32 record.fadeInTime, putF32 record.fadeOutTime, putF32 record.oscillationFrequencyMin,
   putF32 record.oscillationFrequencyMax, putF32 record.oscillationPhaseMin, putF32 record.oscillationPhaseMax,
   putF32 record.oscillationScaleMin, putF32 record.oscillationScaleMax,
   putF32 record.positionOscillationFrequencyMin, putF32 record.positionOscillationFrequencyMax,
   putF32 record.positionOscillationPhaseMin, putF32 record.positionOscillationPhaseMax,
   putF32 record.positionOscillationScaleMin, putF32 record.positionOscillationScaleMax,
   putVec3 record.positionOscillationMask, putF32 record.sizeOscillationFrequencyMin,
   putF32 record.sizeOscillationFrequencyMax, putF32 record.sizeOscillationPhaseMin,
   putF32 record.sizeOscillationPhaseMax, putF32 record.sizeOscillationScaleMin,
   putF32 record.sizeOscillationScaleMax, putF32 record.sizeChangeStartTime,
   putF32 record.sizeChangeStartValue, putF32 record.sizeChangeEndValue, putVec3 record.vortexAxis,
   putF32 record.vortexDistanceInner, putF32 record.vortexDistanceOuter, putF32 record.vortexSpeedInner,
   putF32 record.vortexSpeedOuter, putF32 record.trailLength, putF32 record.trailMinLength,
   putF32 record.trailMaxLength, putU32 record.rendererFlags].flatten

def SceneParticleSystemRecord.decode : Decoder SceneParticleSystemRecord := do
  let object ← u32
  let resource ← resourceId
  let material ← u32
  let parentParticleIndex ← u32
  let childType ← tag "particle child type"
  let childProbability ← f32
  let childMaxCount ← u32
  let simulation ← tag "particle simulation kind"
  let emitterShape ← tag "particle emitter shape"
  let renderer ← tag "particle renderer kind"
  let moduleMask ← u32
  let initializerCount ← u32
  let initializerPackedLow ← u32
  let initializerPackedHigh ← u32
  let initializerOrder ← checkInitializerOrder initializerCount initializerPackedLow initializerPackedHigh
  return {
    object := ⟨object⟩, resource, material := ⟨material⟩, parentParticleIndex, childType, childProbability,
    childMaxCount, simulation, emitterShape, renderer, moduleMask := ⟨moduleMask⟩, initializerOrder,
    flags := ← u32, maxCount := ← u32, animationMode := ← tag "particle animation mode",
    sequenceMultiplier := ← f32, startTime := ← f32, instanceTimeScale := ← f32, instanceColorEnabled := ← u32,
    instanceColor := ← vec3, colorReference := ← vec3, instanceCountScale := ← f32, rate := ← f32,
    emitterOrigin := ← vec3, emitterDirections := ← vec3, distanceMin := ← vec3, distanceMax := ← vec3,
    emitterSpeedMin := ← f32, emitterSpeedMax := ← f32, lifetimeMin := ← f32, lifetimeMax := ← f32,
    sizeMin := ← f32, sizeMax := ← f32, velocityMin := ← vec3, velocityMax := ← vec3, colorMin := ← vec3,
    colorMax := ← vec3, alphaMin := ← f32, alphaMax := ← f32, rotationMin := ← f32, rotationMax := ← f32,
    turbulenceOffset := ← f32, turbulenceScale := ← f32, turbulenceSpeedMin := ← f32,
    turbulenceSpeedMax := ← f32, turbulentVelocityPhaseMin := ← f32, turbulentVelocityPhaseMax := ← f32,
    turbulentVelocityTimeScale := ← f32, turbulentVelocityRight := ← vec3, turbulentVelocityForward := ← vec3,
    turbulenceOperatorScale := ← f32, turbulenceOperatorSpeedMin := ← f32, turbulenceOperatorSpeedMax := ← f32,
    turbulenceOperatorPhaseMin := ← f32, turbulencePhaseMax := ← f32, turbulenceOperatorTimeScale := ← f32,
    turbulenceMask := ← vec3, angularVelocityMin := ← vec3, angularVelocityMax := ← vec3, gravity := ← vec3,
    fadeInTime := ← f32, fadeOutTime := ← f32, oscillationFrequencyMin := ← f32,
    oscillationFrequencyMax := ← f32, oscillationPhaseMin := ← f32, oscillationPhaseMax := ← f32,
    oscillationScaleMin := ← f32, oscillationScaleMax := ← f32, positionOscillationFrequencyMin := ← f32,
    positionOscillationFrequencyMax := ← f32, positionOscillationPhaseMin := ← f32,
    positionOscillationPhaseMax := ← f32, positionOscillationScaleMin := ← f32,
    positionOscillationScaleMax := ← f32, positionOscillationMask := ← vec3,
    sizeOscillationFrequencyMin := ← f32, sizeOscillationFrequencyMax := ← f32,
    sizeOscillationPhaseMin := ← f32, sizeOscillationPhaseMax := ← f32, sizeOscillationScaleMin := ← f32,
    sizeOscillationScaleMax := ← f32, sizeChangeStartTime := ← f32, sizeChangeStartValue := ← f32,
    sizeChangeEndValue := ← f32, vortexAxis := ← vec3, vortexDistanceInner := ← f32,
    vortexDistanceOuter := ← f32, vortexSpeedInner := ← f32, vortexSpeedOuter := ← f32, trailLength := ← f32,
    trailMinLength := ← f32, trailMaxLength := ← f32, rendererFlags := ← u32 }

instance : Decodes SceneParticleSystemRecord.decode SceneParticleSystemRecord.put where
  reads _ := Fields.reads (by repeat constructor)

def SceneEffectRecord.put (record : SceneEffectRecord) : Bytes :=
  [putU32 record.id.val, putResourceId record.resource, putStringId record.replacementKey,
   putU32 record.passStart, putU32 record.passCount, putU32 record.fboStart, putU32 record.fboCount].flatten

def SceneEffectRecord.decode : Decoder SceneEffectRecord := return {
  id := ⟨← u32⟩, resource := ← resourceId, replacementKey := ← stringId, passStart := ← u32,
  passCount := ← u32, fboStart := ← u32, fboCount := ← u32 }

instance : Decodes SceneEffectRecord.decode SceneEffectRecord.put where
  reads _ := Fields.reads (by repeat constructor)

def SceneEffectPassRecord.put (record : SceneEffectPassRecord) : Bytes :=
  [putU32 record.effect.val, putU32 record.passIndex, putU32 record.material.val, putStringId record.command,
   putStringId record.source, putStringId record.target, putU32 record.bindingStart,
   putU32 record.bindingCount, putU32 record.comboStart, putU32 record.comboCount].flatten

def SceneEffectPassRecord.decode : Decoder SceneEffectPassRecord := return {
  effect := ⟨← u32⟩, passIndex := ← u32, material := ⟨← u32⟩, command := ← stringId, source := ← stringId,
  target := ← stringId, bindingStart := ← u32, bindingCount := ← u32, comboStart := ← u32, comboCount := ← u32 }

instance : Decodes SceneEffectPassRecord.decode SceneEffectPassRecord.put where
  reads _ := Fields.reads (by repeat constructor)

def SceneEffectBindingRecord.put (record : SceneEffectBindingRecord) : Bytes :=
  [putU32 record.slot, putStringId record.target].flatten

def SceneEffectBindingRecord.decode : Decoder SceneEffectBindingRecord := return {
  slot := ← u32, target := ← stringId }

instance : Decodes SceneEffectBindingRecord.decode SceneEffectBindingRecord.put where
  reads _ := Fields.reads (by repeat constructor)

def SceneEffectComboRecord.put (record : SceneEffectComboRecord) : Bytes :=
  [putStringId record.name, putI64 record.value].flatten

def SceneEffectComboRecord.decode : Decoder SceneEffectComboRecord := return {
  name := ← stringId, value := ← i64 }

instance : Decodes SceneEffectComboRecord.decode SceneEffectComboRecord.put where
  reads _ := Fields.reads (by repeat constructor)

def SceneEffectFboRecord.put (record : SceneEffectFboRecord) : Bytes :=
  [putStringId record.name, putStringId record.format, putF32 record.scale].flatten

def SceneEffectFboRecord.decode : Decoder SceneEffectFboRecord := return {
  name := ← stringId, format := ← stringId, scale := ← f32 }

instance : Decodes SceneEffectFboRecord.decode SceneEffectFboRecord.put where
  reads _ := Fields.reads (by repeat constructor)

def SceneObjectAnimationLayerRecord.put (record : SceneObjectAnimationLayerRecord) : Bytes :=
  [putU32 record.object.val, putU32 record.animationId, putU32 record.layerIndex, putBool record.additive,
   putBool record.autosort, putBool record.visible, putF32 record.playbackRate, putF32 record.blendWeight,
   putF32 record.initialProgress].flatten

def SceneObjectAnimationLayerRecord.decode : Decoder SceneObjectAnimationLayerRecord := return {
  object := ⟨← u32⟩, animationId := ← u32, layerIndex := ← u32, additive := ← bool, autosort := ← bool,
  visible := ← bool, playbackRate := ← f32, blendWeight := ← f32, initialProgress := ← f32 }

instance : Decodes SceneObjectAnimationLayerRecord.decode SceneObjectAnimationLayerRecord.put where
  reads _ := Fields.reads (by repeat constructor)

def ScenePuppetAnimationClipRecord.put (record : ScenePuppetAnimationClipRecord) : Bytes :=
  [putU32 record.puppet, putU32 record.clipId, putU32 record.flags, putU32 record.name.val,
   putU32 record.playback.val, putF32 record.fps, putU32 record.frameCount, putU32 record.frameMetadata,
   putU32 record.trackStart, putU32 record.trackCount].flatten

def ScenePuppetAnimationClipRecord.decode : Decoder ScenePuppetAnimationClipRecord := return {
  puppet := ← u32, clipId := ← u32, flags := ← u32, name := ⟨← u32⟩, playback := ⟨← u32⟩, fps := ← f32,
  frameCount := ← u32, frameMetadata := ← u32, trackStart := ← u32, trackCount := ← u32 }

instance : Decodes ScenePuppetAnimationClipRecord.decode ScenePuppetAnimationClipRecord.put where
  reads _ := Fields.reads (by repeat constructor)

def ScenePuppetAnimationTrackRecord.put (record : ScenePuppetAnimationTrackRecord) : Bytes :=
  [putU32 record.clip, putU32 record.boneIndex, putU32 record.trackFlags, putU32 record.sampleStart,
   putU32 record.sampleCount, putU32 record.opacityFlags, putU32 record.opacitySampleStart,
   putU32 record.opacitySampleCount].flatten

def ScenePuppetAnimationTrackRecord.decode : Decoder ScenePuppetAnimationTrackRecord := return {
  clip := ← u32, boneIndex := ← u32, trackFlags := ← u32, sampleStart := ← u32, sampleCount := ← u32,
  opacityFlags := ← u32, opacitySampleStart := ← u32, opacitySampleCount := ← u32 }

instance : Decodes ScenePuppetAnimationTrackRecord.decode ScenePuppetAnimationTrackRecord.put where
  reads _ := Fields.reads (by repeat constructor)

def ScenePuppetAnimationTransformSampleRecord.put (record : ScenePuppetAnimationTransformSampleRecord) : Bytes :=
  [putVec3 record.translation, putVec3 record.rotation, putVec3 record.scale].flatten

def ScenePuppetAnimationTransformSampleRecord.decode : Decoder ScenePuppetAnimationTransformSampleRecord := return {
  translation := ← vec3, rotation := ← vec3, scale := ← vec3 }

instance : Decodes ScenePuppetAnimationTransformSampleRecord.decode ScenePuppetAnimationTransformSampleRecord.put where
  reads _ := Fields.reads (by repeat constructor)

def SceneObjectTransformTrackRecord.put (record : SceneObjectTransformTrackRecord) : Bytes :=
  [putU32 record.object.val, putTag record.property, putU32 record.flags, putU32 record.playback.val,
   putF32 record.fps, putU32 record.frameCount, putU32 record.channelStart, putU32 record.channelCount].flatten

def SceneObjectTransformTrackRecord.decode : Decoder SceneObjectTransformTrackRecord := return {
  object := ⟨← u32⟩, property := ← tag "object transform property", flags := ← u32, playback := ⟨← u32⟩,
  fps := ← f32, frameCount := ← u32, channelStart := ← u32, channelCount := ← u32 }

instance : Decodes SceneObjectTransformTrackRecord.decode SceneObjectTransformTrackRecord.put where
  reads _ := Fields.reads (by repeat constructor)

def SceneObjectTransformChannelRecord.put (record : SceneObjectTransformChannelRecord) : Bytes :=
  [putU32 record.track, putU32 record.component, putTag record.kind, putF32 record.offset,
   putF32 record.amplitude, putF32 record.frequency, putF32 record.phase, putU32 record.keyframeStart,
   putU32 record.keyframeCount].flatten

def SceneObjectTransformChannelRecord.decode : Decoder SceneObjectTransformChannelRecord := return {
  track := ← u32, component := ← u32, kind := ← tag "object transform channel kind", offset := ← f32,
  amplitude := ← f32, frequency := ← f32, phase := ← f32, keyframeStart := ← u32, keyframeCount := ← u32 }

instance : Decodes SceneObjectTransformChannelRecord.decode SceneObjectTransformChannelRecord.put where
  reads _ := Fields.reads (by repeat constructor)

def SceneObjectTransformKeyframeRecord.put (record : SceneObjectTransformKeyframeRecord) : Bytes :=
  [putF32 record.frame, putF32 record.value, putArray putF32 record.back, putArray putF32 record.front,
   putU32 record.flags].flatten

def SceneObjectTransformKeyframeRecord.decode : Decoder SceneObjectTransformKeyframeRecord := return {
  frame := ← f32, value := ← f32, back := ← array f32 2, front := ← array f32 2, flags := ← u32 }

instance : Decodes SceneObjectTransformKeyframeRecord.decode SceneObjectTransformKeyframeRecord.put where
  reads _ := Fields.reads (by repeat constructor)

def SceneRenderGraphRecord.put (record : SceneRenderGraphRecord) : Bytes :=
  [putU32 record.object.val, putTag record.activationPolicy, putTag record.sourceExtentDomain,
   putU32 record.passStart, putU32 record.passCount, putU32 record.unsupportedStart,
   putU32 record.unsupportedCount].flatten

def SceneRenderGraphRecord.decode : Decoder SceneRenderGraphRecord := return {
  object := ⟨← u32⟩, activationPolicy := ← tag "render graph activation policy",
  sourceExtentDomain := ← tag "render graph source extent domain", passStart := ← u32, passCount := ← u32,
  unsupportedStart := ← u32, unsupportedCount := ← u32 }

instance : Decodes SceneRenderGraphRecord.decode SceneRenderGraphRecord.put where
  reads _ := Fields.reads (by repeat constructor)

def SceneRenderPassRecord.put (record : SceneRenderPassRecord) : Bytes :=
  [putU32 record.id, putTag record.role, putTag record.drawPrimitive, putU32 record.object.val,
   putU32 record.material.val, putU32 record.passIndex, putStringId record.shaderKey, putTag record.target,
   putStringId record.targetName, putU32 record.bindingStart, putU32 record.bindingCount,
   putU32 record.effectBindingStart, putU32 record.effectBindingCount, putTag record.effectVisibilityPolicy,
   putTag record.pipelineBlend, putTag record.sceneBlend, putTag record.depthTest, putBool record.depthWrite,
   putTag record.cullMode, putTag record.colorWriteMask, putBool record.clearTarget].flatten

def SceneRenderPassRecord.decode : Decoder SceneRenderPassRecord := return {
  id := ← u32, role := ← tag "render pass role", drawPrimitive := ← tag "render pass draw primitive",
  object := ⟨← u32⟩, material := ⟨← u32⟩, passIndex := ← u32, shaderKey := ← stringId,
  target := ← tag "render target", targetName := ← stringId, bindingStart := ← u32, bindingCount := ← u32,
  effectBindingStart := ← u32, effectBindingCount := ← u32,
  effectVisibilityPolicy := ← tag "render effect visibility policy", pipelineBlend := ← tag "pipeline blend",
  sceneBlend := ← tag "scene blend", depthTest := ← tag "depth test", depthWrite := ← bool,
  cullMode := ← tag "cull mode", colorWriteMask := ← tag "color write mask", clearTarget := ← bool }

instance : Decodes SceneRenderPassRecord.decode SceneRenderPassRecord.put where
  reads _ := Fields.reads (by repeat constructor)

def SceneRenderBindingRecord.put (record : SceneRenderBindingRecord) : Bytes :=
  [putTag record.kind, putU32 record.slot, putTag record.target, putStringId record.name].flatten

def SceneRenderBindingRecord.decode : Decoder SceneRenderBindingRecord := return {
  kind := ← tag "render binding kind", slot := ← u32, target := ← tag "render binding target",
  name := ← stringId }

instance : Decodes SceneRenderBindingRecord.decode SceneRenderBindingRecord.put where
  reads _ := Fields.reads (by repeat constructor)

def SceneUnsupportedRecord.put (record : SceneUnsupportedRecord) : Bytes :=
  [putU32 record.object.val, putU32 record.passIndex, putStringId record.feature,
   putStringId record.expectedSubsystem, putStringId record.containment].flatten

def SceneUnsupportedRecord.decode : Decoder SceneUnsupportedRecord := return {
  object := ⟨← u32⟩, passIndex := ← u32, feature := ← stringId, expectedSubsystem := ← stringId,
  containment := ← stringId }

instance : Decodes SceneUnsupportedRecord.decode SceneUnsupportedRecord.put where
  reads _ := Fields.reads (by repeat constructor)

def SceneImageTargetRecord.put (record : SceneImageTargetRecord) : Bytes :=
  [putStringId record.name, putTag record.role, putStringId record.format, putTag record.extentDomain,
   putU32 record.widthDivisorMilli, putU32 record.heightDivisorMilli].flatten

def SceneImageTargetRecord.decode : Decoder SceneImageTargetRecord := return {
  name := ← stringId, role := ← tag "image target role", format := ← stringId,
  extentDomain := ← tag "image target extent domain", widthDivisorMilli := ← u32, heightDivisorMilli := ← u32 }

instance : Decodes SceneImageTargetRecord.decode SceneImageTargetRecord.put where
  reads _ := Fields.reads (by repeat constructor)

def SceneShaderContractRecord.put (record : SceneShaderContractRecord) : Bytes :=
  [putStringId record.shaderKey, putStringId record.pipelineKey, putU32 record.textureSlotMask,
   putU32 record.inputAttachmentSlotMask, putU32 record.constantStart, putU32 record.constantCount,
   putU32 record.resourceHeapCount, putU32 record.samplerHeapCount].flatten

def SceneShaderContractRecord.decode : Decoder SceneShaderContractRecord := return {
  shaderKey := ← stringId, pipelineKey := ← stringId, textureSlotMask := ← u32,
  inputAttachmentSlotMask := ← u32, constantStart := ← u32, constantCount := ← u32, resourceHeapCount := ← u32,
  samplerHeapCount := ← u32 }

instance : Decodes SceneShaderContractRecord.decode SceneShaderContractRecord.put where
  reads _ := Fields.reads (by repeat constructor)

def SceneShaderProgramRecord.put (record : SceneShaderProgramRecord) : Bytes :=
  [putStringId record.programKey, putTag record.stage, putStringId record.entryPoint, putU32 record.spirvStart,
   putU32 record.spirvCount, putU32 record.bindingStart, putU32 record.bindingCount,
   putU32 record.stageIoStart, putU32 record.stageIoCount, putU32 record.uniformBufferStart,
   putU32 record.uniformBufferCount, putU32 record.pushConstantBytes].flatten

def SceneShaderProgramRecord.decode : Decoder SceneShaderProgramRecord := return {
  programKey := ← stringId, stage := ← tag "shader program stage", entryPoint := ← stringId,
  spirvStart := ← u32, spirvCount := ← u32, bindingStart := ← u32, bindingCount := ← u32,
  stageIoStart := ← u32, stageIoCount := ← u32, uniformBufferStart := ← u32, uniformBufferCount := ← u32,
  pushConstantBytes := ← u32 }

instance : Decodes SceneShaderProgramRecord.decode SceneShaderProgramRecord.put where
  reads _ := Fields.reads (by repeat constructor)

def SceneShaderStageIoRecord.put (record : SceneShaderStageIoRecord) : Bytes :=
  [putStringId record.name, putTag record.direction, putU32 record.location, putTag record.scalarType,
   putU32 record.rows, putU32 record.columns, putU32 record.locationCount].flatten

def SceneShaderStageIoRecord.decode : Decoder SceneShaderStageIoRecord := return {
  name := ← stringId, direction := ← tag "shader I/O direction", location := ← u32,
  scalarType := ← tag "shader scalar type", rows := ← u32, columns := ← u32, locationCount := ← u32 }

instance : Decodes SceneShaderStageIoRecord.decode SceneShaderStageIoRecord.put where
  reads _ := Fields.reads (by repeat constructor)

def SceneShaderUniformBufferRecord.put (record : SceneShaderUniformBufferRecord) : Bytes :=
  [putStringId record.name, putU32 record.register, putU32 record.byteSize, putU32 record.memberStart,
   putU32 record.memberCount].flatten

def SceneShaderUniformBufferRecord.decode : Decoder SceneShaderUniformBufferRecord := return {
  name := ← stringId, register := ← u32, byteSize := ← u32, memberStart := ← u32, memberCount := ← u32 }

instance : Decodes SceneShaderUniformBufferRecord.decode SceneShaderUniformBufferRecord.put where
  reads _ := Fields.reads (by repeat constructor)

def SceneShaderUniformMemberRecord.put (record : SceneShaderUniformMemberRecord) : Bytes :=
  [putStringId record.name, putStringId record.materialParameter, putU32 record.byteOffset,
   putU32 record.byteSize, putTag record.scalarType, putU32 record.rows, putU32 record.columns,
   putU32 record.arrayCount, putU32 record.arrayStride, putU32 record.matrixStride].flatten

def SceneShaderUniformMemberRecord.decode : Decoder SceneShaderUniformMemberRecord := return {
  name := ← stringId, materialParameter := ← stringId, byteOffset := ← u32, byteSize := ← u32,
  scalarType := ← tag "shader scalar type", rows := ← u32, columns := ← u32, arrayCount := ← u32,
  arrayStride := ← u32, matrixStride := ← u32 }

instance : Decodes SceneShaderUniformMemberRecord.decode SceneShaderUniformMemberRecord.put where
  reads _ := Fields.reads (by repeat constructor)

def SceneShaderBindingRecord.put (record : SceneShaderBindingRecord) : Bytes :=
  [putTag record.kind, putU32 record.register, putU32 record.descriptorCount, putU32 record.pushOffset].flatten

def SceneShaderBindingRecord.decode : Decoder SceneShaderBindingRecord := return {
  kind := ← tag "shader binding kind", register := ← u32, descriptorCount := ← u32, pushOffset := ← u32 }

instance : Decodes SceneShaderBindingRecord.decode SceneShaderBindingRecord.put where
  reads _ := Fields.reads (by repeat constructor)

def SceneScriptProgramRecord.put (record : SceneScriptProgramRecord) : Bytes :=
  [putU32 record.object.val, putTag record.target, putU32 record.selector, putStringId record.source,
   putStringId record.propertiesJson, putStringId record.initialText, putU32 record.subscriptions.val,
   putArray putF32 record.initialNumeric].flatten

def SceneScriptProgramRecord.decode : Decoder SceneScriptProgramRecord := return {
  object := ⟨← u32⟩, target := ← tag "script program target", selector := ← u32, source := ← stringId,
  propertiesJson := ← stringId, initialText := ← stringId, subscriptions := ⟨← u32⟩,
  initialNumeric := ← array f32 4 }

instance : Decodes SceneScriptProgramRecord.decode SceneScriptProgramRecord.put where
  reads _ := Fields.reads (by repeat constructor)

def SceneDynamicTextRecord.put (record : SceneDynamicTextRecord) : Bytes :=
  [putU32 record.object.val, putU32 record.fontResource.val, putU32 record.atlasResource.val,
   putU32 record.glyphStart, putU32 record.glyphCount, putU32 record.maxGlyphCount, putF32 record.pixelsPerEm,
   putArray putF32 record.spacing, putArray putF32 record.padding, putU32 (Tag.toU32 record.horizontalAlign),
   putU32 (Tag.toU32 record.verticalAlign)].flatten

def SceneDynamicTextRecord.decode : Decoder SceneDynamicTextRecord := do
  let object ← u32
  let fontResource ← u32
  let atlasResource ← u32
  let glyphStart ← u32
  let glyphCount ← u32
  let maxGlyphCount ← u32
  let pixelsPerEm ← f32
  let spacing ← array f32 2
  let padding ← array f32 2
  let horizontalRaw ← u32
  let verticalRaw ← u32
  return {
    object := ⟨object⟩, fontResource := ⟨fontResource⟩, atlasResource := ⟨atlasResource⟩, glyphStart,
    glyphCount, maxGlyphCount, pixelsPerEm, spacing, padding,
    horizontalAlign := ← checkTag "dynamic text horizontal alignment" horizontalRaw,
    verticalAlign := ← checkTag "dynamic text vertical alignment" verticalRaw }

instance : Decodes SceneDynamicTextRecord.decode SceneDynamicTextRecord.put where
  reads _ := Fields.reads (by repeat constructor)

def SceneDynamicTextGlyphRecord.put (record : SceneDynamicTextGlyphRecord) : Bytes :=
  [putU32 record.codepoint, putArray putF32 record.atlasUv, putArray putF32 record.planeBounds].flatten

def SceneDynamicTextGlyphRecord.decode : Decoder SceneDynamicTextGlyphRecord := return {
  codepoint := ← u32, atlasUv := ← array f32 4, planeBounds := ← array f32 4 }

instance : Decodes SceneDynamicTextGlyphRecord.decode SceneDynamicTextGlyphRecord.put where
  reads _ := Fields.reads (by repeat constructor)

def SceneUserPropertyBindingRecord.put (record : SceneUserPropertyBindingRecord) : Bytes :=
  [putU32 record.object.val, putStringId record.property, putTag record.target, record.predicate.put].flatten

def SceneUserPropertyBindingRecord.decode : Decoder SceneUserPropertyBindingRecord := return {
  object := ⟨← u32⟩, property := ← stringId, target := ← tag "user property target",
  predicate := ← SceneUserPropertyPredicate.decode }

instance : Decodes SceneUserPropertyBindingRecord.decode SceneUserPropertyBindingRecord.put where
  reads _ := Fields.reads (by repeat constructor)

def SceneCameraParallaxRecord.put (record : SceneCameraParallaxRecord) : Bytes :=
  [putBool record.enabled, putF32 record.amount, putF32 record.delay, putF32 record.mouseInfluence].flatten

def SceneCameraParallaxRecord.decode : Decoder SceneCameraParallaxRecord := return {
  enabled := ← bool, amount := ← f32, delay := ← f32, mouseInfluence := ← f32 }

instance : Decodes SceneCameraParallaxRecord.decode SceneCameraParallaxRecord.put where
  reads _ := Fields.reads (by repeat constructor)

def SceneObjectParallaxDepthRecord.put (record : SceneObjectParallaxDepthRecord) : Bytes :=
  [putU32 record.object.val, putArray putF32 record.depth].flatten

def SceneObjectParallaxDepthRecord.decode : Decoder SceneObjectParallaxDepthRecord := return {
  object := ⟨← u32⟩, depth := ← array f32 2 }

instance : Decodes SceneObjectParallaxDepthRecord.decode SceneObjectParallaxDepthRecord.put where
  reads _ := Fields.reads (by repeat constructor)

end TensorDE.Scene
