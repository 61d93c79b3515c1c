import TensorDE.Lib.Grid
import TensorDE.Renderer.Error

set_option linter.dupNamespace false

namespace TensorDE.Renderer

open Effect hiding okOr
open Ranges

inductive TextureFormat where
  | r8Unorm
  | rg8Unorm
  | rgba8Unorm
  | rgba8Srgb
  | bgra8Unorm
  | bgra8Srgb
  | a2R10G10B10UnormPack32
  | a2B10G10R10UnormPack32
  | r16Float
  | rg16Float
  | rgba16Float
  | r16Unorm
  | rg16Unorm
  | r32Float
  | rg32Float
  | rgba32Float
  | rgba32Uint
  | bc1RgbaUnorm
  | bc2RgbaUnorm
  | bc3RgbaUnorm
  | bc4RUnorm
  | bc5RgUnorm
  | bc7RgbaUnorm
  | g8B8R8TwoPlane420Unorm
  | g8B8R8TwoPlane422Unorm
  | g8B8R8TwoPlane444Unorm
  | g8B8R8ThreePlane420Unorm
  | g8B8R8ThreePlane422Unorm
  | g8B8R8ThreePlane444Unorm
  | g10X6B10X6R10X6TwoPlane420Unorm3Pack16
  | g10X6B10X6R10X6ThreePlane420Unorm3Pack16
  | g16B16R16TwoPlane420Unorm
deriving DecidableEq

inductive ImageDimension where
  | d1
  | d2
  | d3
deriving DecidableEq

structure Extent3D where
  width : UInt32
  height : UInt32
  depthOrLayers : UInt32
deriving DecidableEq

structure Origin3D where
  x : Int32
  y : Int32
  z : Int32
deriving DecidableEq

structure TextureSubresourceLayers where
  aspects : UInt8
  mipLevel : UInt32
  baseArrayLayer : UInt32
  layerCount : UInt32
deriving DecidableEq

structure Image where
  dimension : ImageDimension
  format : TextureFormat
  extent : Extent3D
  mipLevels : UInt32
  arrayLayers : UInt32
deriving DecidableEq

structure BufferImageCopy where
  bufferOffset : UInt64
  bufferRowLength : UInt32
  bufferImageHeight : UInt32
  imageSubresource : TextureSubresourceLayers
  imageOffset : Origin3D
  imageExtent : Extent3D
deriving DecidableEq

structure TexelBlockLayout where
  width : UInt32
  height : UInt32
  bytes : UInt32
deriving DecidableEq

/-- The arithmetic of the footprint. Numbers are of 64 bits unless they are read as fewer; an operation the source does
not check panics where it leaves its range. -/
abbrev Checked (α : Type) := Except (Fault Error) α

namespace Checked

def validation (message : String) : Checked α := .error (.error (.validation message))

def okOr (o : Option α) (message : String) : Checked α :=
  match o with
  | some a => .ok a
  | none => validation message

def checkedMul (a b : Nat) : Option Nat := if a * b < 2 ^ 64 then some (a * b) else none

def checkedSub (a b : Nat) : Option Nat := if b ≤ a then some (a - b) else none

def checkedAddU32 (a b : Nat) : Option Nat := if a + b < 2 ^ 32 then some (a + b) else none

def toU32 (a : Nat) : Option Nat := if a < 2 ^ 32 then some a else none

/-- Division as written in the source. -/
def div (a b : Nat) : Checked Nat := if b = 0 then .error .panic else .ok (a / b)

def ceilDiv (a b : Nat) : Nat := (a + b - 1) / b

def divCeil (a b : Nat) : Checked Nat := if b = 0 then .error .panic else .ok (ceilDiv a b)

def shiftRight (a bits : Nat) : Checked Nat := if bits < 32 then .ok (a >>> bits) else .error .panic

def isMultipleOf (a b : Nat) : Bool := if b = 0 then a = 0 else a % b = 0

end Checked

open Checked

namespace TexelBlockLayout

def r8 : TexelBlockLayout := ⟨1, 1, 1⟩

def rg8 : TexelBlockLayout := ⟨1, 1, 2⟩

def rgba8 : TexelBlockLayout := ⟨1, 1, 4⟩

def bc1 : TexelBlockLayout := ⟨4, 4, 8⟩

def bc2ToBc7 : TexelBlockLayout := ⟨4, 4, 16⟩

def forFormat : TextureFormat → Option TexelBlockLayout
  | .r8Unorm => some r8
  | .rg8Unorm => some rg8
  | .rgba8Unorm | .rgba8Srgb | .bgra8Unorm | .bgra8Srgb => some rgba8
  | .bc1RgbaUnorm | .bc4RUnorm => some bc1
  | .bc2RgbaUnorm | .bc3RgbaUnorm | .bc5RgUnorm | .bc7RgbaUnorm => some bc2ToBc7
  | _ => none

def validate (block : TexelBlockLayout) : Checked Unit :=
  if block.width = 0 ∨ block.height = 0 ∨ block.bytes = 0 then
    validation "texel block dimensions and byte size must be non-zero"
  else .ok ()

end TexelBlockLayout

structure ImageDataLayout where
  bytesPerRow : UInt64
  rowsPerImage : UInt32
deriving DecidableEq

structure ImageUpload where
  dataLayout : ImageDataLayout
  texelBlock : TexelBlockLayout
  imageSubresource : TextureSubresourceLayers
  imageOffset : Origin3D
  imageExtent : Extent3D
deriving DecidableEq

structure ValidatedImageUpload where
  copy : BufferImageCopy
  requiredBytes : Nat
deriving DecidableEq

/-- `extent >> mip`, at least one. -/
def mipSize (size mip : UInt32) : Checked Nat := do
  let shifted ← shiftRight size.toNat mip.toNat
  .ok (max shifted 1)

variable (image : Image)

def validateSubresource (upload : ImageUpload) : Checked Unit :=
  if upload.imageSubresource.aspects = 0 ∨ upload.imageSubresource.layerCount = 0 ∨
      (checkedAddU32 upload.imageSubresource.baseArrayLayer.toNat upload.imageSubresource.layerCount.toNat).all fun stop =>
        image.arrayLayers.toNat < stop then
    validation "image upload subresource layers are invalid"
  else if upload.imageExtent.width = 0 ∨ upload.imageExtent.height = 0 ∨ upload.imageExtent.depthOrLayers = 0 then
    validation "image upload extent must be non-empty"
  else if upload.imageOffset.x.toInt < 0 ∨ upload.imageOffset.y.toInt < 0 ∨ upload.imageOffset.z.toInt < 0 then
    validation "image upload offsets must be non-negative"
  else if ¬ isMultipleOf upload.imageOffset.x.toInt.toNat upload.texelBlock.width.toNat ∨
      ¬ isMultipleOf upload.imageOffset.y.toInt.toNat upload.texelBlock.height.toNat then
    validation "image upload offsets must align to the texel block extent"
  else if image.mipLevels ≤ upload.imageSubresource.mipLevel then validation "image upload mip level is invalid"
  else .ok ()

def validateExtent (upload : ImageUpload) : Checked Unit := do
  let block := upload.texelBlock
  let extent := upload.imageExtent
  let mip := upload.imageSubresource.mipLevel
  let width ← mipSize image.extent.width mip
  let height ← mipSize image.extent.height mip
  let depth ← mipSize image.extent.depthOrLayers mip
  let endX ← okOr (checkedAddU32 upload.imageOffset.x.toInt.toNat extent.width.toNat)
    "image upload X range overflows"
  let endY ← okOr (checkedAddU32 upload.imageOffset.y.toInt.toNat extent.height.toNat)
    "image upload Y range overflows"
  let endZ ← okOr (checkedAddU32 upload.imageOffset.z.toInt.toNat extent.depthOrLayers.toNat)
    "image upload Z range overflows"
  if width < endX ∨ height < endY ∨ depth < endZ then validation "image upload exceeds the selected mip extent"
  else if endX ≠ width ∧ ¬ isMultipleOf extent.width.toNat block.width.toNat then
    validation "compressed upload width must be block aligned except at the mip edge"
  else if endY ≠ height ∧ ¬ isMultipleOf extent.height.toNat block.height.toNat then
    validation "compressed upload height must be block aligned except at the mip edge"
  else match image.dimension with
    | .d3 =>
      if upload.imageSubresource.baseArrayLayer ≠ 0 ∨ upload.imageSubresource.layerCount ≠ 1 then
        validation "3D image uploads require base array layer zero and one layer"
      else .ok ()
    | .d1 =>
      if extent.height ≠ 1 then validation "1D image uploads require a height of one"
      else if extent.depthOrLayers ≠ 1 then validation "1D and 2D image uploads require a depth of one"
      else .ok ()
    | .d2 =>
      if extent.depthOrLayers ≠ 1 then validation "1D and 2D image uploads require a depth of one" else .ok ()

def validateSubresourceAndExtent (upload : ImageUpload) : Checked Unit := do
  validateSubresource image upload
  validateExtent image upload

variable (upload : ImageUpload)

def requiredFootprint : Checked Nat := do
  let block := upload.texelBlock
  let widthBlocks ← divCeil upload.imageExtent.width.toNat block.width.toNat
  let heightBlocks ← divCeil upload.imageExtent.height.toNat block.height.toNat
  let rowBytes ← okOr (checkedMul widthBlocks block.bytes.toNat) "image row footprint overflows"
  let blockRowsPerImage ← div upload.dataLayout.rowsPerImage.toNat block.height.toNat
  let bytesPerImage ← okOr (checkedMul upload.dataLayout.bytesPerRow.toNat blockRowsPerImage)
    "image slice footprint overflows"
  let images := max upload.imageExtent.depthOrLayers.toNat upload.imageSubresource.layerCount.toNat
  let precedingImages ← okOr ((checkedSub images 1).bind fun count => checkedMul count bytesPerImage)
    "image array footprint overflows"
  let precedingRows ← okOr
    ((checkedSub heightBlocks 1).bind fun count => checkedMul count upload.dataLayout.bytesPerRow.toNat)
    "image row footprint overflows"
  okOr ((checkedAdd precedingImages precedingRows).bind fun size => checkedAdd size rowBytes)
    "image upload footprint overflows"

namespace ImageUpload

def rowTexels (upload : ImageUpload) : Checked Nat := do
  let block := upload.texelBlock
  let rowBlocks ← okOr
    (if block.bytes = 0 ∨ ¬ isMultipleOf upload.dataLayout.bytesPerRow.toNat block.bytes.toNat then none
      else some (upload.dataLayout.bytesPerRow.toNat / block.bytes.toNat))
    "image bytes_per_row is not a whole number of texel blocks"
  okOr ((checkedMul rowBlocks block.width.toNat).bind toU32) "image buffer row length overflows u32"

def validate (upload : ImageUpload) (image : Image) (dataLen : UInt64) : Checked ValidatedImageUpload := do
  upload.texelBlock.validate
  if (TexelBlockLayout.forFormat image.format).any fun expected => expected ≠ upload.texelBlock then
    validation "texel block layout does not match the image format"
  else
    validateSubresourceAndExtent image upload
    let rowTexels ← upload.rowTexels
    if rowTexels < upload.imageExtent.width.toNat then
      validation "image bytes_per_row is smaller than the copied width"
    else if upload.dataLayout.rowsPerImage < upload.imageExtent.height ∨
        ¬ isMultipleOf upload.dataLayout.rowsPerImage.toNat upload.texelBlock.height.toNat then
      validation "image rows_per_image is too small or not block aligned"
    else
      let requiredBytes ← requiredFootprint upload
      if dataLen.toNat < requiredBytes then
        validation s!"image upload requires {requiredBytes} bytes but received {dataLen}"
      else .ok {
        copy := {
          bufferOffset := 0
          bufferRowLength := .ofNat rowTexels
          bufferImageHeight := upload.dataLayout.rowsPerImage
          imageSubresource := upload.imageSubresource
          imageOffset := upload.imageOffset
          imageExtent := upload.imageExtent }
        requiredBytes }

end ImageUpload

/-! Which bytes of the buffer a copy reads, and which texels of the image it writes. -/

/-- A texel block of a copied region: its array layer, its depth slice, and its place in the slice. -/
structure CopiedBlock where
  layer : Nat
  slice : Nat
  row : Nat
  column : Nat
deriving DecidableEq

def ImageUpload.lastBlock : CopiedBlock where
  layer := upload.imageSubresource.layerCount.toNat - 1
  slice := upload.imageExtent.depthOrLayers.toNat - 1
  row := ceilDiv upload.imageExtent.height.toNat upload.texelBlock.height.toNat - 1
  column := ceilDiv upload.imageExtent.width.toNat upload.texelBlock.width.toNat - 1

namespace BufferImageCopy

variable (copy : BufferImageCopy)

def Copies (block : TexelBlockLayout) (b : CopiedBlock) : Prop :=
  b.layer < copy.imageSubresource.layerCount.toNat ∧ b.slice < copy.imageExtent.depthOrLayers.toNat ∧
    b.row < ceilDiv copy.imageExtent.height.toNat block.height.toNat ∧
    b.column < ceilDiv copy.imageExtent.width.toNat block.width.toNat

/-- The buffer holds the layers and slices one after the other. A row length or an image height of zero stands for
the one of the region. -/
def grid (block : TexelBlockLayout) : Grid where
  columns := (if copy.bufferRowLength = 0 then copy.imageExtent.width else copy.bufferRowLength).toNat / block.width.toNat
  rows := (if copy.bufferImageHeight = 0 then copy.imageExtent.height else copy.bufferImageHeight).toNat /
    block.height.toNat
  bytes := block.bytes.toNat

def bytes (block : TexelBlockLayout) (b : CopiedBlock) : Range :=
  let cell := (copy.grid block).cell (b.layer * copy.imageExtent.depthOrLayers.toNat + b.slice) b.row b.column
  ⟨copy.bufferOffset.toNat + cell.start, copy.bufferOffset.toNat + cell.stop⟩

/-- The region is a part of the mip level it selects. -/
structure Inside (copy : BufferImageCopy) (image : Image) : Prop where
  mipLevel : copy.imageSubresource.mipLevel.toNat < image.mipLevels.toNat
  layers : copy.imageSubresource.baseArrayLayer.toNat + copy.imageSubresource.layerCount.toNat ≤ image.arrayLayers.toNat
  left : 0 ≤ copy.imageOffset.x.toInt
  right : copy.imageOffset.x.toInt + copy.imageExtent.width.toNat ≤
    max (image.extent.width.toNat >>> copy.imageSubresource.mipLevel.toNat) 1
  top : 0 ≤ copy.imageOffset.y.toInt
  bottom : copy.imageOffset.y.toInt + copy.imageExtent.height.toNat ≤
    max (image.extent.height.toNat >>> copy.imageSubresource.mipLevel.toNat) 1
  front : 0 ≤ copy.imageOffset.z.toInt
  back : copy.imageOffset.z.toInt + copy.imageExtent.depthOrLayers.toNat ≤
    max (image.extent.depthOrLayers.toNat >>> copy.imageSubresource.mipLevel.toNat) 1

end BufferImageCopy

section Inversion

variable {α : Type} {message : String}

@[simp] theorem okOr_eq_ok {o : Option α} {a : α} : okOr o message = .ok a ↔ o = some a := by
  cases o with
  | none => exact ⟨(fun h => by cases h), (fun h => by cases h)⟩
  | some b => exact ⟨fun h => congrArg some (Except.ok.inj h), fun h => congrArg Except.ok (Option.some.inj h)⟩

@[simp] theorem validation_ne_ok {a : α} : validation message ≠ .ok a := fun h => by cases h

variable {n : Nat}

theorem mipSize_eq_ok {size mip : UInt32} (h : mipSize size mip = .ok n) : n = max (size.toNat >>> mip.toNat) 1 := by
  obtain ⟨shifted, hshift, hn⟩ := except_bind_eq_ok.mp h
  grind [shiftRight]

variable {a b : Nat}

theorem divCeil_eq_ok (h : divCeil a b = .ok n) : n = ceilDiv a b := by
  grind [divCeil]

theorem div_eq_ok (h : Checked.div a b = .ok n) : n = a / b := by
  grind [Checked.div]

theorem checkedAdd_eq_some (h : checkedAdd a b = some n) : n = a + b := by
  grind [checkedAdd]

theorem checkedAddU32_eq_some (h : checkedAddU32 a b = some n) : n = a + b := by
  grind [checkedAddU32]

theorem checkedMul_eq_some (h : checkedMul a b = some n) : n = a * b := by
  grind [checkedMul]

theorem checkedSub_eq_some (h : checkedSub a b = some n) : b ≤ a ∧ n = a - b := by
  grind [checkedSub]

theorem isMultipleOf_iff (hb : b ≠ 0) : isMultipleOf a b ↔ b ∣ a := by
  rw [isMultipleOf, if_neg hb, decide_eq_true_iff]
  exact Nat.dvd_iff_mod_eq_zero.symm

end Inversion

section Footprint

variable {image : Image} {upload : ImageUpload} {n : Nat}

theorem validateSubresource_ok (h : validateSubresource image upload = .ok ()) :
    upload.imageSubresource.mipLevel.toNat < image.mipLevels.toNat ∧
      upload.imageSubresource.baseArrayLayer.toNat + upload.imageSubresource.layerCount.toNat ≤ image.arrayLayers.toNat ∧
      upload.imageSubresource.layerCount ≠ 0 ∧
      (upload.imageExtent.width ≠ 0 ∧ upload.imageExtent.height ≠ 0 ∧ upload.imageExtent.depthOrLayers ≠ 0) ∧
      0 ≤ upload.imageOffset.x.toInt ∧ 0 ≤ upload.imageOffset.y.toInt ∧ 0 ≤ upload.imageOffset.z.toInt := by
  unfold validateSubresource at h
  split at h
  · cases h
  split at h
  · cases h
  split at h
  · cases h
  split at h
  · cases h
  split at h
  · cases h
  grind [UInt32.le_iff_toNat_le, checkedAddU32]

/-- The region fits the mip level, and is either of one slice or of one layer. -/
theorem validateExtent_ok (h : validateExtent image upload = .ok ()) :
    (upload.imageOffset.x.toInt.toNat + upload.imageExtent.width.toNat ≤
        max (image.extent.width.toNat >>> upload.imageSubresource.mipLevel.toNat) 1 ∧
      upload.imageOffset.y.toInt.toNat + upload.imageExtent.height.toNat ≤
        max (image.extent.height.toNat >>> upload.imageSubresource.mipLevel.toNat) 1 ∧
      upload.imageOffset.z.toInt.toNat + upload.imageExtent.depthOrLayers.toNat ≤
        max (image.extent.depthOrLayers.toNat >>> upload.imageSubresource.mipLevel.toNat) 1) ∧
    (upload.imageSubresource.layerCount = 1 ∨ upload.imageExtent.depthOrLayers = 1) := by
  obtain ⟨width, hwidth, h⟩ := except_bind_eq_ok.mp h
  obtain ⟨height, hheight, h⟩ := except_bind_eq_ok.mp h
  obtain ⟨depth, hdepth, h⟩ := except_bind_eq_ok.mp h
  obtain ⟨endX, hendX, h⟩ := except_bind_eq_ok.mp h
  obtain ⟨endY, hendY, h⟩ := except_bind_eq_ok.mp h
  obtain ⟨endZ, hendZ, h⟩ := except_bind_eq_ok.mp h
  rw [← mipSize_eq_ok hwidth, ← mipSize_eq_ok hheight, ← mipSize_eq_ok hdepth,
    ← checkedAddU32_eq_some (okOr_eq_ok.mp hendX), ← checkedAddU32_eq_some (okOr_eq_ok.mp hendY),
    ← checkedAddU32_eq_some (okOr_eq_ok.mp hendZ)]
  split at h
  · cases h
  rename_i hinside
  simp only [not_or, not_lt] at hinside
  refine ⟨hinside, ?_⟩
  split at h
  · cases h
  split at h
  · cases h
  split at h
  · split at h
    · cases h
    grind
  · split at h
    · cases h
    · split at h
      · cases h
      · exact .inr (not_not.mp ‹_›)
  · split at h
    · cases h
    · exact .inr (not_not.mp ‹_›)

theorem requiredFootprint_ok (h : requiredFootprint upload = .ok n) :
    n = (max upload.imageExtent.depthOrLayers.toNat upload.imageSubresource.layerCount.toNat - 1) *
        (upload.dataLayout.bytesPerRow.toNat * (upload.dataLayout.rowsPerImage.toNat / upload.texelBlock.height.toNat)) +
      (ceilDiv upload.imageExtent.height.toNat upload.texelBlock.height.toNat - 1) *
        upload.dataLayout.bytesPerRow.toNat + ceilDiv upload.imageExtent.width.toNat upload.texelBlock.width.toNat *
        upload.texelBlock.bytes.toNat := by
  obtain ⟨widthBlocks, hwidth, h⟩ := except_bind_eq_ok.mp h
  obtain ⟨heightBlocks, hheight, h⟩ := except_bind_eq_ok.mp h
  obtain ⟨rowBytes, hrow, h⟩ := except_bind_eq_ok.mp h
  obtain ⟨blockRows, hrows, h⟩ := except_bind_eq_ok.mp h
  obtain ⟨bytesPerImage, himage, h⟩ := except_bind_eq_ok.mp h
  obtain ⟨precedingImages, himages, h⟩ := except_bind_eq_ok.mp h
  obtain ⟨precedingRows, hpreceding, h⟩ := except_bind_eq_ok.mp h
  obtain ⟨size, hsize, hn⟩ := Option.bind_eq_some_iff.mp (okOr_eq_ok.mp h)
  obtain ⟨count, hcount, hmul⟩ := Option.bind_eq_some_iff.mp (okOr_eq_ok.mp himages)
  obtain ⟨lines, hlines, hmul'⟩ := Option.bind_eq_some_iff.mp (okOr_eq_ok.mp hpreceding)
  rw [checkedAdd_eq_some hn, checkedAdd_eq_some hsize, checkedMul_eq_some hmul, checkedMul_eq_some hmul',
    (checkedSub_eq_some hcount).2, (checkedSub_eq_some hlines).2, checkedMul_eq_some (okOr_eq_ok.mp hrow),
    checkedMul_eq_some (okOr_eq_ok.mp himage), divCeil_eq_ok hwidth, divCeil_eq_ok hheight, div_eq_ok hrows]

theorem rowTexels_ok (h : upload.rowTexels = .ok n) : upload.texelBlock.bytes.toNat ∣ upload.dataLayout.bytesPerRow.toNat ∧
    n = upload.dataLayout.bytesPerRow.toNat / upload.texelBlock.bytes.toNat * upload.texelBlock.width.toNat ∧
    n < 2 ^ 32 := by
  obtain ⟨rowBlocks, hblocks, h⟩ := except_bind_eq_ok.mp h
  obtain ⟨texels, hmul, hfit⟩ := Option.bind_eq_some_iff.mp (okOr_eq_ok.mp h)
  rw [okOr_eq_ok] at hblocks
  split at hblocks
  · cases hblocks
  rename_i hmultiple
  simp only [not_or] at hmultiple
  have hbytes : upload.texelBlock.bytes.toNat ≠ 0 := fun h0 => hmultiple.1 (UInt32.toNat_inj.mp h0)
  grind [toU32, isMultipleOf_iff, checkedMul_eq_some]

end Footprint

section Exact

variable {image : Image} {upload : ImageUpload} {dataLen : UInt64} {validated : ValidatedImageUpload}

structure Accepted (image : Image) (upload : ImageUpload) (dataLen : UInt64) (validated : ValidatedImageUpload) :
    Prop where
  block : upload.texelBlock.width ≠ 0 ∧ upload.texelBlock.height ≠ 0 ∧ upload.texelBlock.bytes ≠ 0
  subresource : validateSubresource image upload = .ok ()
  extent : validateExtent image upload = .ok ()
  row : ∃ rowTexels, upload.rowTexels = .ok rowTexels ∧ upload.imageExtent.width.toNat ≤ rowTexels ∧
    validated.copy = ⟨0, .ofNat rowTexels, upload.dataLayout.rowsPerImage, upload.imageSubresource, upload.imageOffset,
      upload.imageExtent⟩
  rows : upload.imageExtent.height.toNat ≤ upload.dataLayout.rowsPerImage.toNat
  aligned : upload.texelBlock.height.toNat ∣ upload.dataLayout.rowsPerImage.toNat
  footprint : requiredFootprint upload = .ok validated.requiredBytes
  available : validated.requiredBytes ≤ dataLen.toNat

theorem accepted_of_validate (h : upload.validate image dataLen = .ok validated) :
    Accepted image upload dataLen validated := by
  obtain ⟨_, hblock, h⟩ := except_bind_eq_ok.mp h
  rw [TexelBlockLayout.validate] at hblock
  split at hblock
  · cases hblock
  rename_i hsizes
  simp only [not_or] at hsizes
  split at h
  · cases h
  obtain ⟨_, hvalid, h⟩ := except_bind_eq_ok.mp h
  obtain ⟨_, hsubresource, hextent⟩ := except_bind_eq_ok.mp hvalid
  obtain ⟨rowTexels, hrow, h⟩ := except_bind_eq_ok.mp h
  split at h
  · cases h
  split at h
  · cases h
  rename_i hrows
  simp only [not_or, not_not] at hrows
  obtain ⟨required, hfootprint, h⟩ := except_bind_eq_ok.mp h
  split at h
  · cases h
  rename_i havailable
  obtain rfl := Except.ok.inj h
  have hheight : upload.texelBlock.height.toNat ≠ 0 := fun h0 => hsizes.2.1 (UInt32.toNat_inj.mp h0)
  have hle : upload.imageExtent.height.toNat ≤ upload.dataLayout.rowsPerImage.toNat := by
    simpa [UInt32.lt_iff_toNat_lt] using hrows.1
  exact ⟨hsizes, hsubresource, hextent, ⟨rowTexels, hrow, by omega, rfl⟩, hle, (isMultipleOf_iff hheight).mp hrows.2,
    hfootprint, Nat.le_of_not_lt havailable⟩

theorem ceil_le {size block count : Nat} (hpos : 0 < block) (h : size ≤ count * block) :
    ceilDiv size block ≤ count := by
  refine Nat.lt_succ_iff.mp ((Nat.div_lt_iff_lt_mul hpos).mpr ?_)
  rw [Nat.succ_mul]
  omega

theorem ceilDiv_pos {size block : Nat} (hsize : 0 < size) (hblock : 0 < block) : 0 < ceilDiv size block :=
  Nat.div_pos (by omega) hblock

theorem pos_of_ne_zero {a : UInt32} (h : a ≠ 0) : 0 < a.toNat :=
  Nat.pos_of_ne_zero fun h0 => h (UInt32.toNat_inj.mp h0)

theorem Accepted.grid (h : Accepted image upload dataLen validated) :
    (validated.copy.grid upload.texelBlock).bytes = upload.texelBlock.bytes.toNat ∧
      (validated.copy.grid upload.texelBlock).rows =
        upload.dataLayout.rowsPerImage.toNat / upload.texelBlock.height.toNat ∧
      (validated.copy.grid upload.texelBlock).columns * upload.texelBlock.bytes.toNat =
        upload.dataLayout.bytesPerRow.toNat ∧ ceilDiv upload.imageExtent.height.toNat upload.texelBlock.height.toNat ≤
        (validated.copy.grid upload.texelBlock).rows ∧
      ceilDiv upload.imageExtent.width.toNat upload.texelBlock.width.toNat ≤
        (validated.copy.grid upload.texelBlock).columns := by
  obtain ⟨hbw, hbh, hbb⟩ := h.block
  obtain ⟨-, -, -, ⟨hwidth, hheight, -⟩, -⟩ := validateSubresource_ok h.subresource
  obtain ⟨rowTexels, hrow, hfits, hcopy⟩ := h.row
  obtain ⟨hdvd, htexels, hlt⟩ := rowTexels_ok hrow
  have hbwpos := pos_of_ne_zero hbw
  have hbhpos := pos_of_ne_zero hbh
  have hwidthpos := pos_of_ne_zero hwidth
  have hheightpos := pos_of_ne_zero hheight
  have hrowne : (UInt32.ofNat rowTexels) ≠ 0 := by
    intro h0
    have := congrArg UInt32.toNat h0
    rw [UInt32.toNat_ofNat', Nat.mod_eq_of_lt hlt] at this
    change rowTexels = 0 at this
    omega
  have hrowsne : upload.dataLayout.rowsPerImage ≠ 0 := by
    intro h0
    have hle := h.rows
    rw [h0] at hle
    change upload.imageExtent.height.toNat ≤ 0 at hle
    omega
  have hcolumns : (validated.copy.grid upload.texelBlock).columns =
      upload.dataLayout.bytesPerRow.toNat / upload.texelBlock.bytes.toNat := by
    rw [hcopy]
    simp only [BufferImageCopy.grid, if_neg hrowne, UInt32.toNat_ofNat', Nat.mod_eq_of_lt hlt]
    rw [htexels, Nat.mul_div_cancel _ hbwpos]
  have hrows : (validated.copy.grid upload.texelBlock).rows =
      upload.dataLayout.rowsPerImage.toNat / upload.texelBlock.height.toNat := by
    rw [hcopy]
    simp only [BufferImageCopy.grid, if_neg hrowsne]
  refine ⟨by rfl, hrows, by rw [hcolumns, Nat.div_mul_cancel hdvd], ?_, ?_⟩
  · rw [hrows]
    exact ceil_le hbhpos (by rw [Nat.div_mul_cancel h.aligned]; exact h.rows)
  · rw [hcolumns]
    exact ceil_le hbwpos (htexels ▸ hfits)

theorem Accepted.required (h : Accepted image upload dataLen validated) :
    validated.requiredBytes = ((validated.copy.grid upload.texelBlock).cell
      (upload.imageSubresource.layerCount.toNat * upload.imageExtent.depthOrLayers.toNat - 1)
      (ceilDiv upload.imageExtent.height.toNat upload.texelBlock.height.toNat - 1)
      (ceilDiv upload.imageExtent.width.toNat upload.texelBlock.width.toNat - 1)).stop := by
  obtain ⟨hbytes, hrows, hcolumns, -, -⟩ := h.grid
  obtain ⟨-, hone⟩ := validateExtent_ok h.extent
  obtain ⟨-, -, hcount, ⟨hwidth, -, hdepth⟩, -⟩ := validateSubresource_ok h.subresource
  have hcountpos := pos_of_ne_zero hcount
  have hdepthpos := pos_of_ne_zero hdepth
  have himages : max upload.imageExtent.depthOrLayers.toNat upload.imageSubresource.layerCount.toNat =
      upload.imageSubresource.layerCount.toNat * upload.imageExtent.depthOrLayers.toNat := by
    obtain hone | hone := hone
    · rw [hone]
      change max _ 1 = 1 * _
      omega
    · rw [hone]
      change max 1 _ = _ * 1
      omega
  have hwide : 0 < ceilDiv upload.imageExtent.width.toNat upload.texelBlock.width.toNat :=
    ceilDiv_pos (pos_of_ne_zero hwidth) (pos_of_ne_zero h.block.1)
  rw [requiredFootprint_ok h.footprint, himages, ← hrows, ← hcolumns, Grid.cell, Grid.index, hbytes]
  obtain ⟨columns, hcols⟩ := Nat.exists_eq_add_of_lt hwide
  simp only [hcols, Nat.add_sub_cancel]
  ring

end Exact

def edgeImage : Image := ⟨.d2, .bc1RgbaUnorm, ⟨7, 7, 1⟩, 1, 1⟩

/-- A whole image with partial blocks at its right and its bottom edge. -/
def edgeUpload : ImageUpload := ⟨⟨16, 8⟩, .bc1, ⟨1, 0, 0, 1⟩, ⟨0, 0, 0⟩, ⟨7, 7, 1⟩⟩

section Ends

variable {α : Type} {P : α → Prop} {image : Image} {upload : ImageUpload} {message : String}

end Ends

end TensorDE.Renderer
