import TensorDE.Scene.InitializerOrder

set_option linter.dupNamespace false

namespace TensorDE.Scene

/-- A float as the bit pattern that is stored. -/
structure F32 where
  bits : UInt32
deriving DecidableEq

/-- An enumeration with the number that stands for each variant in a file. -/
class Tag (α : Type) where
  toU32 : α → UInt32
  fromU32 : UInt32 → Option α
  fromU32_toU32 : ∀ a, fromU32 (toU32 a) = some a

structure SceneStringId where
  val : UInt32

structure SceneResourceId where
  val : UInt32

structure SceneObjectHandle where
  val : UInt32

structure SceneMaterialHandle where
  val : UInt32

structure SceneEffectHandle where
  val : UInt32

structure SceneParticleModuleMask where
  val : UInt32

structure SceneScriptSubscriptions where
  val : UInt32

structure SceneVec3 where
  (x y z : F32)

def sceneTextureAlphaCoverageGridSize : Nat := 32

inductive SceneResourceKind where
  | projectJson | sceneJson | scenePackageEntry | modelJson | textureTex | materialJson | effectJson | mdl
  | audio | font | script | raw | builtinShader | particleDefinition
deriving DecidableEq

instance : Tag SceneResourceKind where
  toU32
    | .projectJson => 1 | .sceneJson => 2 | .scenePackageEntry => 3 | .modelJson => 4 | .textureTex => 5
    | .materialJson => 6 | .effectJson => 7 | .mdl => 8 | .audio => 9 | .font => 10 | .script => 11
    | .raw => 12 | .builtinShader => 13 | .particleDefinition => 14
  fromU32
    | 1 => some .projectJson | 2 => some .sceneJson | 3 => some .scenePackageEntry | 4 => some .modelJson
    | 5 => some .textureTex | 6 => some .materialJson | 7 => some .effectJson | 8 => some .mdl
    | 9 => some .audio | 10 => some .font | 11 => some .script | 12 => some .raw | 13 => some .builtinShader
    | 14 => some .particleDefinition | _ => none
  fromU32_toU32 tag := by cases tag <;> rfl

inductive SceneObjectKind where
  | image | model | puppet | particleEmitter | text | clear | camera | unsupported
deriving DecidableEq

instance : Tag SceneObjectKind where
  toU32
    | .image => 1 | .model => 2 | .puppet => 3 | .particleEmitter => 4 | .text => 5 | .clear => 6
    | .camera => 7 | .unsupported => 0xffff
  fromU32
    | 1 => some .image | 2 => some .model | 3 => some .puppet | 4 => some .particleEmitter | 5 => some .text
    | 6 => some .clear | 7 => some .camera | 0xffff => some .unsupported | _ => none
  fromU32_toU32 tag := by cases tag <;> rfl

inductive SceneRenderTargetKind where
  | sceneColor | swapchain | imageLocalMain | imageLocalSub | namedFbo | firstClassEffectTarget
  | videoExternalImage | temporary
deriving DecidableEq

instance : Tag SceneRenderTargetKind where
  toU32
    | .sceneColor => 1 | .swapchain => 2 | .imageLocalMain => 3 | .imageLocalSub => 4 | .namedFbo => 5
    | .firstClassEffectTarget => 6 | .videoExternalImage => 7 | .temporary => 8
  fromU32
    | 1 => some .sceneColor | 2 => some .swapchain | 3 => some .imageLocalMain | 4 => some .imageLocalSub
    | 5 => some .namedFbo | 6 => some .firstClassEffectTarget | 7 => some .videoExternalImage
    | 8 => some .temporary | _ => none
  fromU32_toU32 tag := by cases tag <;> rfl

inductive SceneRenderPassKind where
  | clear | baseMaterial | objectLocalSource | effectMaterial | colorBlendPassthrough | copyTarget
  | swapTargetReferences | videoSample | particle | textPath | sceneComposite | meshVisiblePrefix
  | meshClippingMask | meshClippedTarget | meshVisibleRemainder | debugEvidence | unsupported
deriving DecidableEq

instance : Tag SceneRenderPassKind where
  toU32
    | .clear => 1 | .baseMaterial => 2 | .objectLocalSource => 16 | .effectMaterial => 3
    | .colorBlendPassthrough => 4 | .copyTarget => 5 | .swapTargetReferences => 6 | .videoSample => 7
    | .particle => 8 | .textPath => 9 | .sceneComposite => 10 | .meshVisiblePrefix => 12
    | .meshClippingMask => 13 | .meshClippedTarget => 14 | .meshVisibleRemainder => 15 | .debugEvidence => 11
    | .unsupported => 0xffff
  fromU32
    | 1 => some .clear | 2 => some .baseMaterial | 16 => some .objectLocalSource | 3 => some .effectMaterial
    | 4 => some .colorBlendPassthrough | 5 => some .copyTarget | 6 => some .swapTargetReferences
    | 7 => some .videoSample | 8 => some .particle | 9 => some .textPath | 10 => some .sceneComposite
    | 12 => some .meshVisiblePrefix | 13 => some .meshClippingMask | 14 => some .meshClippedTarget
    | 15 => some .meshVisibleRemainder | 11 => some .debugEvidence | 0xffff => some .unsupported | _ => none
  fromU32_toU32 tag := by cases tag <;> rfl

inductive SceneRenderPassDrawPrimitive where
  | none | objectMesh | objectCompositeMesh | framebufferCompositeMesh | fullscreenTriangle
  | objectUvSupportQuad | particleBillboard
deriving DecidableEq

instance : Tag SceneRenderPassDrawPrimitive where
  toU32
    | .none => 0 | .objectMesh => 1 | .objectCompositeMesh => 5 | .framebufferCompositeMesh => 6
    | .fullscreenTriangle => 2 | .objectUvSupportQuad => 3 | .particleBillboard => 4
  fromU32
    | 0 => some .none | 1 => some .objectMesh | 5 => some .objectCompositeMesh
    | 6 => some .framebufferCompositeMesh | 2 => some .fullscreenTriangle | 3 => some .objectUvSupportQuad
    | 4 => some .particleBillboard | _ => none
  fromU32_toU32 tag := by cases tag <;> rfl

inductive SceneRenderGraphActivationPolicy where
  | always | anyEffectVisible
deriving DecidableEq

instance : Tag SceneRenderGraphActivationPolicy where
  toU32
    | .always => 0 | .anyEffectVisible => 1
  fromU32
    | 0 => some .always | 1 => some .anyEffectVisible | _ => none
  fromU32_toU32 tag := by cases tag <;> rfl

inductive SceneRenderEffectVisibilityPolicy where
  | none | passthrough | waterWavesStages | flatRoundedMask | materialStages | anyVisible | noneVisible
deriving DecidableEq

instance : Tag SceneRenderEffectVisibilityPolicy where
  toU32
    | .none => 0 | .passthrough => 1 | .waterWavesStages => 2 | .flatRoundedMask => 3 | .materialStages => 4
    | .anyVisible => 5 | .noneVisible => 6
  fromU32
    | 0 => some .none | 1 => some .passthrough | 2 => some .waterWavesStages | 3 => some .flatRoundedMask
    | 4 => some .materialStages | 5 => some .anyVisible | 6 => some .noneVisible | _ => none
  fromU32_toU32 tag := by cases tag <;> rfl

inductive SceneRenderBindingKind where
  | sourceTexture | textureSlot | alphaTextureSlot | previousGraphTarget | graphTarget | namedFboBind
  | effectTarget | videoFrame | audioUniform | systemUniform | passConstant
deriving DecidableEq

instance : Tag SceneRenderBindingKind where
  toU32
    | .sourceTexture => 1 | .textureSlot => 2 | .alphaTextureSlot => 3 | .previousGraphTarget => 4
    | .graphTarget => 5 | .namedFboBind => 6 | .effectTarget => 7 | .videoFrame => 8 | .audioUniform => 9
    | .systemUniform => 10 | .passConstant => 11
  fromU32
    | 1 => some .sourceTexture | 2 => some .textureSlot | 3 => some .alphaTextureSlot
    | 4 => some .previousGraphTarget | 5 => some .graphTarget | 6 => some .namedFboBind
    | 7 => some .effectTarget | 8 => some .videoFrame | 9 => some .audioUniform | 10 => some .systemUniform
    | 11 => some .passConstant | _ => none
  fromU32_toU32 tag := by cases tag <;> rfl

inductive SceneTextureFormat where
  | rgba8Unorm | rg8Unorm | r8Unorm | bc1RgbaUnormBlock | bc2UnormBlock | bc3UnormBlock | bc4UnormBlock
  | bc5UnormBlock | bc7UnormBlock
deriving DecidableEq

instance : Tag SceneTextureFormat where
  toU32
    | .rgba8Unorm => 0 | .rg8Unorm => 1 | .r8Unorm => 2 | .bc1RgbaUnormBlock => 3 | .bc2UnormBlock => 4
    | .bc3UnormBlock => 5 | .bc4UnormBlock => 6 | .bc5UnormBlock => 7 | .bc7UnormBlock => 8
  fromU32
    | 0 => some .rgba8Unorm | 1 => some .rg8Unorm | 2 => some .r8Unorm | 3 => some .bc1RgbaUnormBlock
    | 4 => some .bc2UnormBlock | 5 => some .bc3UnormBlock | 6 => some .bc4UnormBlock | 7 => some .bc5UnormBlock
    | 8 => some .bc7UnormBlock | _ => none
  fromU32_toU32 tag := by cases tag <;> rfl

inductive SceneTextureSamplerFilter where
  | point | linear | anisotropic8
deriving DecidableEq

instance : Tag SceneTextureSamplerFilter where
  toU32
    | .point => 0 | .linear => 1 | .anisotropic8 => 2
  fromU32
    | 0 => some .point | 1 => some .linear | 2 => some .anisotropic8 | _ => none
  fromU32_toU32 tag := by cases tag <;> rfl

inductive SceneTextureSamplerAddressMode where
  | «repeat» | clampToEdge | clampToTransparentBlackBorder
deriving DecidableEq

instance : Tag SceneTextureSamplerAddressMode where
  toU32
    | .«repeat» => 0 | .clampToEdge => 1 | .clampToTransparentBlackBorder => 2
  fromU32
    | 0 => some .«repeat» | 1 => some .clampToEdge | 2 => some .clampToTransparentBlackBorder | _ => none
  fromU32_toU32 tag := by cases tag <;> rfl

inductive SceneObjectTransformProperty where
  | origin | angles | scale | cameraZoom
deriving DecidableEq

instance : Tag SceneObjectTransformProperty where
  toU32
    | .origin => 1 | .angles => 2 | .scale => 3 | .cameraZoom => 4
  fromU32
    | 1 => some .origin | 2 => some .angles | 3 => some .scale | 4 => some .cameraZoom | _ => none
  fromU32_toU32 tag := by cases tag <;> rfl

inductive SceneObjectTransformChannelKind where
  | keyframed | sine
deriving DecidableEq

instance : Tag SceneObjectTransformChannelKind where
  toU32
    | .keyframed => 1 | .sine => 2
  fromU32
    | 1 => some .keyframed | 2 => some .sine | _ => none
  fromU32_toU32 tag := by cases tag <;> rfl

inductive SceneMeshClippingSliceRole where
  | visiblePrefix | maskProducer | clippedTarget | visibleRemainder
deriving DecidableEq

instance : Tag SceneMeshClippingSliceRole where
  toU32
    | .visiblePrefix => 1 | .maskProducer => 2 | .clippedTarget => 3 | .visibleRemainder => 4
  fromU32
    | 1 => some .visiblePrefix | 2 => some .maskProducer | 3 => some .clippedTarget
    | 4 => some .visibleRemainder | _ => none
  fromU32_toU32 tag := by cases tag <;> rfl

inductive SceneTargetExtentDomain where
  | graphSource | physicalSurface | ownerAuthored
deriving DecidableEq

instance : Tag SceneTargetExtentDomain where
  toU32
    | .graphSource => 1 | .physicalSurface => 2 | .ownerAuthored => 3
  fromU32
    | 1 => some .graphSource | 2 => some .physicalSurface | 3 => some .ownerAuthored | _ => none
  fromU32_toU32 tag := by cases tag <;> rfl

inductive SceneRenderSourceExtentDomain where
  | physicalSurface | ownerAuthored
deriving DecidableEq

instance : Tag SceneRenderSourceExtentDomain where
  toU32
    | .physicalSurface => 1 | .ownerAuthored => 2
  fromU32
    | 1 => some .physicalSurface | 2 => some .ownerAuthored | _ => none
  fromU32_toU32 tag := by cases tag <;> rfl

inductive SceneShaderIoDirection where
  | input | output
deriving DecidableEq

instance : Tag SceneShaderIoDirection where
  toU32
    | .input => 1 | .output => 2
  fromU32
    | 1 => some .input | 2 => some .output | _ => none
  fromU32_toU32 tag := by cases tag <;> rfl

inductive SceneShaderScalarType where
  | bool | i32 | u32 | f32
deriving DecidableEq

instance : Tag SceneShaderScalarType where
  toU32
    | .bool => 1 | .i32 => 2 | .u32 => 3 | .f32 => 4
  fromU32
    | 1 => some .bool | 2 => some .i32 | 3 => some .u32 | 4 => some .f32 | _ => none
  fromU32_toU32 tag := by cases tag <;> rfl

inductive SceneShaderStage where
  | vertex | fragment | compute
deriving DecidableEq

instance : Tag SceneShaderStage where
  toU32
    | .vertex => 1 | .fragment => 2 | .compute => 3
  fromU32
    | 1 => some .vertex | 2 => some .fragment | 3 => some .compute | _ => none
  fromU32_toU32 tag := by cases tag <;> rfl

inductive SceneShaderBindingKind where
  | sampledImage | storageImage | sampler | uniformBuffer | storageBuffer
deriving DecidableEq

instance : Tag SceneShaderBindingKind where
  toU32
    | .sampledImage => 1 | .storageImage => 2 | .sampler => 3 | .uniformBuffer => 4 | .storageBuffer => 5
  fromU32
    | 1 => some .sampledImage | 2 => some .storageImage | 3 => some .sampler | 4 => some .uniformBuffer
    | 5 => some .storageBuffer | _ => none
  fromU32_toU32 tag := by cases tag <;> rfl

inductive ScenePipelineBlend where
  | normal | translucent | additive | disabled | alphaToCoverage
deriving DecidableEq

instance : Tag ScenePipelineBlend where
  toU32
    | .normal => 0 | .translucent => 1 | .additive => 2 | .disabled => 3 | .alphaToCoverage => 4
  fromU32
    | 0 => some .normal | 1 => some .translucent | 2 => some .additive | 3 => some .disabled
    | 4 => some .alphaToCoverage | _ => none
  fromU32_toU32 tag := by cases tag <;> rfl

inductive SceneCompositeBlend where
  | alpha | normal | additive | multiply | screen | max | modulate | hslColor | alphaToCoverage
deriving DecidableEq

instance : Tag SceneCompositeBlend where
  toU32
    | .alpha => 0 | .normal => 1 | .additive => 2 | .multiply => 3 | .screen => 4 | .max => 5 | .modulate => 6
    | .hslColor => 7 | .alphaToCoverage => 8
  fromU32
    | 0 => some .alpha | 1 => some .normal | 2 => some .additive | 3 => some .multiply | 4 => some .screen
    | 5 => some .max | 6 => some .modulate | 7 => some .hslColor | 8 => some .alphaToCoverage | _ => none
  fromU32_toU32 tag := by cases tag <;> rfl

inductive SceneDepthTest where
  | disabled | enabled
deriving DecidableEq

instance : Tag SceneDepthTest where
  toU32
    | .disabled => 0 | .enabled => 1
  fromU32
    | 0 => some .disabled | 1 => some .enabled | _ => none
  fromU32_toU32 tag := by cases tag <;> rfl

inductive SceneCullMode where
  | none | normal
deriving DecidableEq

instance : Tag SceneCullMode where
  toU32
    | .none => 0 | .normal => 1
  fromU32
    | 0 => some .none | 1 => some .normal | _ => none
  fromU32_toU32 tag := by cases tag <;> rfl

inductive SceneColorWriteMask where
  | rgb | rgba
deriving DecidableEq

instance : Tag SceneColorWriteMask where
  toU32
    | .rgb => 0 | .rgba => 1
  fromU32
    | 0 => some .rgb | 1 => some .rgba | _ => none
  fromU32_toU32 tag := by cases tag <;> rfl

inductive SceneParticleChildType where
  | builtinDefault | static | eventFollow | eventSpawn | eventDeath
deriving DecidableEq

instance : Tag SceneParticleChildType where
  toU32
    | .builtinDefault => 0 | .static => 1 | .eventFollow => 2 | .eventSpawn => 3 | .eventDeath => 4
  fromU32
    | 0 => some .builtinDefault | 1 => some .static | 2 => some .eventFollow | 3 => some .eventSpawn
    | 4 => some .eventDeath | _ => none
  fromU32_toU32 tag := by cases tag <;> rfl

inductive SceneParticleSimulationKind where
  | unsupported | fallingLeaves | ambientSparkles | floralOscillation | moduleSprite
deriving DecidableEq

instance : Tag SceneParticleSimulationKind where
  toU32
    | .unsupported => 0 | .fallingLeaves => 1 | .ambientSparkles => 2 | .floralOscillation => 3
    | .moduleSprite => 4
  fromU32
    | 0 => some .unsupported | 1 => some .fallingLeaves | 2 => some .ambientSparkles
    | 3 => some .floralOscillation | 4 => some .moduleSprite | _ => none
  fromU32_toU32 tag := by cases tag <;> rfl

inductive SceneParticleEmitterShape where
  | unsupported | sphereRandom | boxRandom
deriving DecidableEq

instance : Tag SceneParticleEmitterShape where
  toU32
    | .unsupported => 0 | .sphereRandom => 1 | .boxRandom => 2
  fromU32
    | 0 => some .unsupported | 1 => some .sphereRandom | 2 => some .boxRandom | _ => none
  fromU32_toU32 tag := by cases tag <;> rfl

inductive SceneParticleRendererKind where
  | unsupported | sprite | spriteTrail
deriving DecidableEq

instance : Tag SceneParticleRendererKind where
  toU32
    | .unsupported => 0 | .sprite => 1 | .spriteTrail => 2
  fromU32
    | 0 => some .unsupported | 1 => some .sprite | 2 => some .spriteTrail | _ => none
  fromU32_toU32 tag := by cases tag <;> rfl

inductive SceneParticleAnimationMode where
  | interpolatedSequence | randomFrame
deriving DecidableEq

instance : Tag SceneParticleAnimationMode where
  toU32
    | .interpolatedSequence => 0 | .randomFrame => 1
  fromU32
    | 0 => some .interpolatedSequence | 1 => some .randomFrame | _ => none
  fromU32_toU32 tag := by cases tag <;> rfl

inductive SceneTextHorizontalAlign where
  | left | center | right
deriving DecidableEq

instance : Tag SceneTextHorizontalAlign where
  toU32
    | .left => 0 | .center => 1 | .right => 2
  fromU32
    | 0 => some .left | 1 => some .center | 2 => some .right | _ => none
  fromU32_toU32 tag := by cases tag <;> rfl

inductive SceneTextVerticalAlign where
  | top | center | bottom
deriving DecidableEq

instance : Tag SceneTextVerticalAlign where
  toU32
    | .top => 0 | .center => 1 | .bottom => 2
  fromU32
    | 0 => some .top | 1 => some .center | 2 => some .bottom | _ => none
  fromU32_toU32 tag := by cases tag <;> rfl

inductive SceneScriptTarget where
  | origin | angles | scale | color | alpha | visible | text | techCircleSectorWidth | effectVisible
  | materialScalar
deriving DecidableEq

instance : Tag SceneScriptTarget where
  toU32
    | .origin => 1 | .angles => 2 | .scale => 3 | .color => 4 | .alpha => 5 | .visible => 6 | .text => 7
    | .techCircleSectorWidth => 8 | .effectVisible => 9 | .materialScalar => 10
  fromU32
    | 1 => some .origin | 2 => some .angles | 3 => some .scale | 4 => some .color | 5 => some .alpha
    | 6 => some .visible | 7 => some .text | 8 => some .techCircleSectorWidth | 9 => some .effectVisible
    | 10 => some .materialScalar | _ => none
  fromU32_toU32 tag := by cases tag <;> rfl

inductive SceneUserPropertyTarget where
  | visible
deriving DecidableEq

instance : Tag SceneUserPropertyTarget where
  toU32
    | .visible => 1
  fromU32
    | 1 => some .visible | _ => none
  fromU32_toU32 tag := by cases tag; rfl

inductive SceneUserPropertyPredicate where
  | booleanValue
  | stringEquals (value : SceneStringId)

structure SceneProjectRecord where
  (title wallpaperType sceneFile preview propertiesJson : SceneStringId)
  (logicalWidth logicalHeight : UInt32)
  (clearColor ambientColor skylightColor : Vector F32 4)
  (cameraEye cameraCenter cameraUp : SceneVec3)

structure SceneResourceRecord where
  id : SceneResourceId
  kind : SceneResourceKind
  (path source : SceneStringId)
  (payloadOffset payloadLen : UInt64)

structure SceneTextureRecord where
  resource : SceneResourceId
  format : SceneTextureFormat
  (sourceRuntimeFormat payloadFormat : UInt32)
  samplerFilter : SceneTextureSamplerFilter
  samplerAddressMode : SceneTextureSamplerAddressMode
  (width height storageWidth storageHeight mipStart mipCount : UInt32)
  (texvTag texbTag sequenceTag : SceneStringId)
  (sequenceCellWidth sequenceCellHeight sequenceFrameStart sequenceFrameCount : UInt32)
  (payloadOffset payloadLen : UInt64)
  alphaCoverageRows : Vector UInt32 sceneTextureAlphaCoverageGridSize

structure SceneTextureSequenceFrameRecord where
  resourceIndex : UInt32
  duration : F32
  (origin axisX axisY : Vector F32 2)

structure SceneTextureMipRecord where
  (width height : UInt32)
  (payloadOffset payloadLen : UInt64)

structure SceneObjectRecord where
  id : SceneObjectHandle
  weId : UInt32
  name : SceneStringId
  kind : SceneObjectKind
  resource : SceneResourceId
  material : SceneMaterialHandle
  parentWeId : UInt32
  attachment : SceneStringId
  (origin angles scale : SceneVec3)
  cameraZoom : F32
  color : SceneVec3
  alpha : F32
  visible : Bool
  (colorBlendMode sortOrder : Int32)
  (effectStart effectCount renderGraph : UInt32)

structure SceneObjectEffectRecord where
  object : SceneObjectHandle
  effect : SceneEffectHandle
  name : SceneStringId
  instanceId : UInt32
  visible : Bool

structure SceneObjectAnimationLayerRecord where
  object : SceneObjectHandle
  (animationId layerIndex : UInt32)
  (additive autosort visible : Bool)
  (playbackRate blendWeight initialProgress : F32)

structure SceneObjectTransformTrackRecord where
  object : SceneObjectHandle
  property : SceneObjectTransformProperty
  flags : UInt32
  playback : SceneStringId
  fps : F32
  (frameCount channelStart channelCount : UInt32)

structure SceneObjectTransformChannelRecord where
  (track component : UInt32)
  kind : SceneObjectTransformChannelKind
  (offset amplitude frequency phase : F32)
  (keyframeStart keyframeCount : UInt32)

structure SceneObjectTransformKeyframeRecord where
  (frame value : F32)
  (back front : Vector F32 2)
  flags : UInt32

structure ScenePuppetAnimationClipRecord where
  (puppet clipId flags : UInt32)
  (name playback : SceneStringId)
  fps : F32
  (frameCount frameMetadata trackStart trackCount : UInt32)

structure ScenePuppetAnimationTrackRecord where
  (clip boneIndex trackFlags sampleStart sampleCount opacityFlags opacitySampleStart opacitySampleCount : UInt32)

structure ScenePuppetAnimationTransformSampleRecord where
  (translation rotation scale : SceneVec3)

structure SceneMaterialRecord where
  id : SceneMaterialHandle
  resource : SceneResourceId
  (passStart passCount : UInt32)

structure SceneMaterialPassRecord where
  material : SceneMaterialHandle
  (shaderKey target : SceneStringId)
  (textureStart textureCount constantStart constantCount : UInt32)
  pipelineBlend : ScenePipelineBlend
  depthTest : SceneDepthTest
  depthWrite : Bool
  cullMode : SceneCullMode
  alphaWriting : SceneStringId
  clearTarget : Bool

structure SceneMaterialTextureRecord where
  slot : UInt32
  resource : SceneResourceId
  path : SceneStringId

structure SceneMaterialConstantRecord where
  (name valueJson : SceneStringId)

structure SceneMeshRecord where
  object : SceneObjectHandle
  material : SceneMaterialHandle
  (vertexStart vertexCount indexStart indexCount : UInt32)
  (width height : F32)
  (boundsMin boundsMax : SceneVec3)

structure SceneMeshVertexRecord where
  position : SceneVec3
  uv : Vector F32 2
  blendIndices : Vector UInt32 4
  blendWeights : Vector F32 4

structure SceneMeshSourceRecord where
  (mesh sourceIndex localIndexOffset indexStart indexCount : UInt32)

structure SceneMeshClippingSubdrawRecord where
  mesh : UInt32
  sourceQword : UInt64
  mask : SceneStringId
  maskResource : SceneResourceId
  (rawFlags targetSourceStart targetSourceCount maskSourceStart maskSourceCount : UInt32)

structure SceneMeshClippingSliceRecord where
  (mesh subdraw : UInt32)
  role : SceneMeshClippingSliceRole
  (indexStart indexCount : UInt32)

structure ScenePuppetRecord where
  object : SceneObjectHandle
  resource : SceneResourceId
  (meshStart meshCount boneStart boneCount attachmentStart attachmentCount : UInt32)

structure ScenePuppetBoneRecord where
  (puppet boneIndex : UInt32)
  name : SceneStringId
  (simulationType parentIndex : Int32)
  localBindMatrix : Vector F32 16
  simulationJson : SceneStringId

structure ScenePuppetAttachmentRecord where
  (puppet boneIndex : UInt32)
  name : SceneStringId
  localMatrix : Vector F32 16

structure SceneEffectRecord where
  id : SceneEffectHandle
  resource : SceneResourceId
  replacementKey : SceneStringId
  (passStart passCount fboStart fboCount : UInt32)

structure SceneEffectPassRecord where
  effect : SceneEffectHandle
  passIndex : UInt32
  material : SceneMaterialHandle
  (command source target : SceneStringId)
  (bindingStart bindingCount comboStart comboCount : UInt32)

structure SceneEffectBindingRecord where
  slot : UInt32
  target : SceneStringId

structure SceneEffectComboRecord where
  name : SceneStringId
  value : Int64

structure SceneEffectFboRecord where
  (name format : SceneStringId)
  scale : F32

structure SceneRenderGraphRecord where
  object : SceneObjectHandle
  activationPolicy : SceneRenderGraphActivationPolicy
  sourceExtentDomain : SceneRenderSourceExtentDomain
  (passStart passCount unsupportedStart unsupportedCount : UInt32)

structure SceneRenderPassRecord where
  id : UInt32
  role : SceneRenderPassKind
  drawPrimitive : SceneRenderPassDrawPrimitive
  object : SceneObjectHandle
  material : SceneMaterialHandle
  passIndex : UInt32
  shaderKey : SceneStringId
  target : SceneRenderTargetKind
  targetName : SceneStringId
  (bindingStart bindingCount effectBindingStart effectBindingCount : UInt32)
  effectVisibilityPolicy : SceneRenderEffectVisibilityPolicy
  pipelineBlend : ScenePipelineBlend
  sceneBlend : SceneCompositeBlend
  depthTest : SceneDepthTest
  depthWrite : Bool
  cullMode : SceneCullMode
  colorWriteMask : SceneColorWriteMask
  clearTarget : Bool

structure SceneRenderBindingRecord where
  kind : SceneRenderBindingKind
  slot : UInt32
  target : SceneRenderTargetKind
  name : SceneStringId

structure SceneUnsupportedRecord where
  object : SceneObjectHandle
  passIndex : UInt32
  (feature expectedSubsystem containment : SceneStringId)

structure SceneImageTargetRecord where
  name : SceneStringId
  role : SceneRenderTargetKind
  format : SceneStringId
  extentDomain : SceneTargetExtentDomain
  (widthDivisorMilli heightDivisorMilli : UInt32)

structure SceneShaderContractRecord where
  (shaderKey pipelineKey : SceneStringId)
  (textureSlotMask inputAttachmentSlotMask constantStart constantCount resourceHeapCount samplerHeapCount : UInt32)

structure SceneShaderProgramRecord where
  programKey : SceneStringId
  stage : SceneShaderStage
  entryPoint : SceneStringId
  (spirvStart spirvCount bindingStart bindingCount stageIoStart stageIoCount uniformBufferStart
   uniformBufferCount pushConstantBytes : UInt32)

structure SceneShaderBindingRecord where
  kind : SceneShaderBindingKind
  (register descriptorCount pushOffset : UInt32)

structure SceneShaderStageIoRecord where
  name : SceneStringId
  direction : SceneShaderIoDirection
  location : UInt32
  scalarType : SceneShaderScalarType
  (rows columns locationCount : UInt32)

structure SceneShaderUniformBufferRecord where
  name : SceneStringId
  (register byteSize memberStart memberCount : UInt32)

structure SceneShaderUniformMemberRecord where
  (name materialParameter : SceneStringId)
  (byteOffset byteSize : UInt32)
  scalarType : SceneShaderScalarType
  (rows columns arrayCount arrayStride matrixStride : UInt32)

structure SceneParticleSystemRecord where
  object : SceneObjectHandle
  resource : SceneResourceId
  material : SceneMaterialHandle
  parentParticleIndex : UInt32
  childType : SceneParticleChildType
  childProbability : F32
  childMaxCount : UInt32
  simulation : SceneParticleSimulationKind
  emitterShape : SceneParticleEmitterShape
  renderer : SceneParticleRendererKind
  moduleMask : SceneParticleModuleMask
  initializerOrder : SceneParticleInitializerOrder
  (flags maxCount : UInt32)
  animationMode : SceneParticleAnimationMode
  (sequenceMultiplier startTime instanceTimeScale : F32)
  instanceColorEnabled : UInt32
  (instanceColor colorReference : SceneVec3)
  (instanceCountScale rate : F32)
  (emitterOrigin emitterDirections distanceMin distanceMax : SceneVec3)
  (emitterSpeedMin emitterSpeedMax lifetimeMin lifetimeMax sizeMin sizeMax : F32)
  (velocityMin velocityMax colorMin colorMax : SceneVec3)
  (alphaMin alphaMax rotationMin rotationMax turbulenceOffset turbulenceScale turbulenceSpeedMin
   turbulenceSpeedMax turbulentVelocityPhaseMin turbulentVelocityPhaseMax turbulentVelocityTimeScale : F32)
  (turbulentVelocityRight turbulentVelocityForward : SceneVec3)
  (turbulenceOperatorScale turbulenceOperatorSpeedMin turbulenceOperatorSpeedMax turbulenceOperatorPhaseMin
   turbulencePhaseMax turbulenceOperatorTimeScale : F32)
  (turbulenceMask angularVelocityMin angularVelocityMax gravity : SceneVec3)
  (fadeInTime fadeOutTime oscillationFrequencyMin oscillationFrequencyMax oscillationPhaseMin
   oscillationPhaseMax oscillationScaleMin oscillationScaleMax positionOscillationFrequencyMin
   positionOscillationFrequencyMax positionOscillationPhaseMin positionOscillationPhaseMax
   positionOscillationScaleMin positionOscillationScaleMax : F32)
  positionOscillationMask : SceneVec3
  (sizeOscillationFrequencyMin sizeOscillationFrequencyMax sizeOscillationPhaseMin sizeOscillationPhaseMax
   sizeOscillationScaleMin sizeOscillationScaleMax sizeChangeStartTime sizeChangeStartValue sizeChangeEndValue : F32)
  vortexAxis : SceneVec3
  (vortexDistanceInner vortexDistanceOuter vortexSpeedInner vortexSpeedOuter trailLength trailMinLength
   trailMaxLength : F32)
  rendererFlags : UInt32

structure SceneDynamicTextRecord where
  object : SceneObjectHandle
  (fontResource atlasResource : SceneResourceId)
  (glyphStart glyphCount maxGlyphCount : UInt32)
  pixelsPerEm : F32
  (spacing padding : Vector F32 2)
  horizontalAlign : SceneTextHorizontalAlign
  verticalAlign : SceneTextVerticalAlign

structure SceneDynamicTextGlyphRecord where
  codepoint : UInt32
  (atlasUv planeBounds : Vector F32 4)

structure SceneScriptProgramRecord where
  object : SceneObjectHandle
  target : SceneScriptTarget
  selector : UInt32
  (source propertiesJson initialText : SceneStringId)
  subscriptions : SceneScriptSubscriptions
  initialNumeric : Vector F32 4

structure SceneCameraParallaxRecord where
  enabled : Bool
  (amount delay mouseInfluence : F32)

structure SceneObjectParallaxDepthRecord where
  object : SceneObjectHandle
  depth : Vector F32 2

structure SceneUserPropertyBindingRecord where
  object : SceneObjectHandle
  property : SceneStringId
  target : SceneUserPropertyTarget
  predicate : SceneUserPropertyPredicate

end TensorDE.Scene
