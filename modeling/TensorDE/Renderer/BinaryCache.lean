import TensorDE.Lib.Consume
import TensorDE.Renderer.Error

set_option linter.dupNamespace false

namespace TensorDE.Renderer

open Effect Codec

structure PipelineBinaryBlob where
  key : Bytes
  data : Bytes
deriving DecidableEq

structure PipelineBinaryArchive where
  binaries : List PipelineBinaryBlob
deriving DecidableEq

structure PipelineBinaryCacheIdentity where
  deviceUuid : Vector UInt8 16
  driverUuid : Vector UInt8 16
  driverVersion : UInt32
deriving DecidableEq

namespace BinaryCache

def cacheMagic : Bytes := Bytes.ofAscii "GPBIN001"

def maxArchiveBytes : Nat := 256 * 1024 * 1024

def maxBinaryCount : Nat := 1024

def maxPipelineBinaryKeySize : Nat := 32

variable (binary : PipelineBinaryBlob)

def validateBinary : Except Error Unit :=
  if binary.key = [] ∨ maxPipelineBinaryKeySize < binary.key.length then
    .error (.validation s!"pipeline binary archive has invalid key size {binary.key.length}")
  else if binary.data = [] then
    .error (.validation "pipeline binary archive contains an empty machine-code payload")
  else
    .ok ()

def validateArchive (archive : PipelineBinaryArchive) : Except Error Unit :=
  if archive.binaries = [] then
    .error (.validation "pipeline binary archive is empty")
  else
    forM archive.binaries validateBinary

def validatePipelineKey (key : Bytes) : Except Error Unit :=
  if key = [] ∨ maxPipelineBinaryKeySize < key.length then
    .error (.validation s!"pipeline cache has invalid pipeline key size {key.length}")
  else
    .ok ()

variable (output : Bytes)

def pushLen (len : Nat) : Except Error Bytes :=
  if len < 2 ^ 32 then
    .ok (output ++ toLe 4 len)
  else
    .error (.validation "pipeline binary cache field exceeds u32")

def pushBinary (binary : PipelineBinaryBlob) : Except Error Bytes := do
  let output ← pushLen output binary.key.length
  if binary.data.length < 2 ^ 64 then
    .ok (output ++ toLe 8 binary.data.length ++ binary.key ++ binary.data)
  else
    .error (.validation "pipeline binary payload length exceeds u64")

variable (identity : PipelineBinaryCacheIdentity)

/-- What a file starts with: the format, and the device and driver its binaries are for. -/
def identityBytes : Bytes :=
  cacheMagic ++ identity.deviceUuid.toList ++ identity.driverUuid.toList ++ toLe 4 identity.driverVersion.toNat

variable (count : Nat)

def checkCount : Except Error Unit :=
  if maxBinaryCount < count then
    .error (.validation s!"pipeline binary cache archive has too many binaries: {count}")
  else
    .ok ()

variable (bytes : Bytes)

def checkSize : Except Error Bytes :=
  if maxArchiveBytes < bytes.length then
    .error (.validation s!"pipeline binary cache archive exceeds {maxArchiveBytes} bytes")
  else
    .ok bytes

def encodeArchive (pipelineKey : Bytes) (archive : PipelineBinaryArchive) :
    Except Error Bytes := do
  validatePipelineKey pipelineKey
  validateArchive archive
  checkCount archive.binaries.length
  let bytes ← pushLen (identityBytes identity) pipelineKey.length
  let bytes ← pushLen (bytes ++ pipelineKey) archive.binaries.length
  let bytes ← archive.binaries.foldlM pushBinary bytes
  checkSize bytes

def take (len : Nat) (label : String) : Op Bytes Error Bytes := do
  let input ← get
  if input.length < len then
    fail (.validation s!"pipeline binary cache is truncated at {label}")
  else
    splitAt len

/-- `try_into` of a slice to an array of `width` bytes, read as a little-endian number. -/
def fromLe (width : Nat) (bytes : Bytes) : Option Nat :=
  if bytes.length = width then some (ofLe bytes) else none

variable (label : String)

def takeU32 : Op Bytes Error Nat := do
  let bytes ← take 4 label
  expect (fromLe 4 bytes)

def takeU64 : Op Bytes Error Nat := do
  let bytes ← take 8 label
  expect (fromLe 8 bytes)

def requireBytes (expected : Bytes) (label : String) : Op Bytes Error Unit := do
  let value ← take expected.length label
  if value ≠ expected then
    fail (.validation s!"pipeline binary cache {label} mismatch")
  else
    pure ()

def takeBinary : Op Bytes Error PipelineBinaryBlob := do
  let keyLen ← takeU32 "binary key length"
  let dataLen ← takeU64 "binary payload length"
  let key ← take keyLen "binary key"
  let data ← take dataLen "binary payload"
  pure { key := key, data := data }

def requireKey (pipelineKey storedKey : Bytes) : Op Bytes Error Unit :=
  if storedKey ≠ pipelineKey then
    fail (.validation "pipeline binary cache pipeline key does not match its lookup key")
  else
    pure ()

def requireCount : Op Bytes Error Unit :=
  if count = 0 ∨ maxBinaryCount < count then
    fail (.validation s!"pipeline binary cache has invalid binary count {count}")
  else
    pure ()

def takeBinaries (pipelineKey : Bytes) :
    Op Bytes Error (List PipelineBinaryBlob) := do
  requireBytes cacheMagic "magic"
  requireBytes identity.deviceUuid.toList "device UUID"
  requireBytes identity.driverUuid.toList "driver UUID"
  requireBytes (toLe 4 identity.driverVersion.toNat) "driver version"
  let storedKeyLen ← takeU32 "pipeline key length"
  let storedKey ← take storedKeyLen "pipeline key"
  requireKey pipelineKey storedKey
  let binaryCount ← takeU32 "binary count"
  requireCount binaryCount
  repeated takeBinary binaryCount

variable {output : Bytes}

/-- What follows the loop: nothing may trail, and the archive must be valid. -/
def finish (binaries : List PipelineBinaryBlob) (input : Bytes) : Except Error PipelineBinaryArchive :=
  if input ≠ [] then
    .error (.validation "pipeline binary cache has trailing bytes")
  else do
    validateArchive ⟨binaries⟩
    .ok ⟨binaries⟩

def decodeArchive (identity : PipelineBinaryCacheIdentity) (pipelineKey : Bytes) :
    Except (Fault Error) PipelineBinaryArchive :=
  match takeBinaries identity pipelineKey bytes with
  | .ok binaries input => (finish binaries input).mapError .error
  | .error e _ => .error e

def binaryBytes : Bytes :=
  toLe 4 binary.key.length ++ toLe 8 binary.data.length ++ binary.key ++ binary.data

def layout (pipelineKey : Bytes) (binaries : List PipelineBinaryBlob) : Bytes :=
  identityBytes identity ++ toLe 4 pipelineKey.length ++ pipelineKey ++ toLe 4 binaries.length ++
    binaries.flatMap binaryBytes

/-! ### What the checks say -/

def Valid : Prop :=
  binary.key ≠ [] ∧ binary.key.length ≤ maxPipelineBinaryKeySize ∧ binary.data ≠ []

variable {binary : PipelineBinaryBlob}

theorem validateBinary_eq_ok : validateBinary binary = .ok () ↔ Valid binary := by
  grind [validateBinary, Valid]

theorem except_seq_eq_ok {ε β : Type} {x : Except ε Unit} {y : Except ε β} {b : β} :
    (x >>= fun _ => y) = .ok b ↔ x = .ok () ∧ y = .ok b := by
  grind [except_bind_eq_ok]

theorem forM_eq_ok {α ε : Type} {check : α → Except ε Unit} {values : List α} :
    forM values check = .ok () ↔ ∀ a ∈ values, check a = .ok () := by
  induction values with
  | nil => simp [pure, Except.pure]
  | cons a values ih => rw [List.forM_cons, except_seq_eq_ok, List.forall_mem_cons, ih]

variable {archive : PipelineBinaryArchive}

theorem validateArchive_eq_ok : validateArchive archive = .ok () ↔
      archive.binaries ≠ [] ∧ ∀ binary ∈ archive.binaries, Valid binary := by
  grind [validateArchive, forM_eq_ok, validateBinary_eq_ok]

theorem validatePipelineKey_eq_ok {key : Bytes} :
    validatePipelineKey key = .ok () ↔ key ≠ [] ∧ key.length ≤ maxPipelineBinaryKeySize := by
  grind [validatePipelineKey]

theorem checkCount_eq_ok {count : Nat} : checkCount count = .ok () ↔ count ≤ maxBinaryCount := by
  grind [checkCount]

variable {bytes out : Bytes}

theorem checkSize_eq_ok : checkSize bytes = .ok out ↔ out = bytes ∧ out.length ≤ maxArchiveBytes := by
  grind [checkSize]

/-! ### The encoder writes the layout -/

theorem pushLen_eq_ok {len : Nat} : pushLen output len = .ok out ↔ len < 2 ^ 32 ∧ out = output ++ toLe 4 len := by
  grind [pushLen]

/-- The lengths of a binary have room in the fields that hold them. -/
def Fits (binary : PipelineBinaryBlob) : Prop :=
  binary.key.length < 2 ^ 32 ∧ binary.data.length < 2 ^ 64

theorem pushBinary_eq_ok : pushBinary output binary = .ok out ↔ Fits binary ∧ out = output ++ binaryBytes binary := by
  grind [pushBinary, except_bind_eq_ok, pushLen_eq_ok, Fits, binaryBytes]

variable {binaries : List PipelineBinaryBlob}

theorem pushBinaries_eq_ok : binaries.foldlM pushBinary output = .ok out ↔
      (∀ binary ∈ binaries, Fits binary) ∧ out = output ++ binaries.flatMap binaryBytes := by
  induction binaries generalizing output with
  | nil => simp [pure, Except.pure, eq_comm]
  | cons binary binaries ih => grind [except_bind_eq_ok, pushBinary_eq_ok]

/-- What the encoder and the decoder both check of an archive and the key it is kept under. -/
structure Storable (pipelineKey : Bytes) (archive : PipelineBinaryArchive) : Prop where
  key : pipelineKey.length < 2 ^ 32
  nonempty : archive.binaries ≠ []
  count : archive.binaries.length ≤ maxBinaryCount
  valid : ∀ binary ∈ archive.binaries, Valid binary
  fits : ∀ binary ∈ archive.binaries, Fits binary

variable {identity : PipelineBinaryCacheIdentity} {pipelineKey : Bytes}

theorem encodeArchive_eq_ok : encodeArchive identity pipelineKey archive = .ok bytes ↔
      validatePipelineKey pipelineKey = .ok () ∧ Storable pipelineKey archive ∧
        bytes = layout identity pipelineKey archive.binaries ∧ bytes.length ≤ maxArchiveBytes := by
  rw [encodeArchive, except_seq_eq_ok, except_seq_eq_ok, except_seq_eq_ok, validateArchive_eq_ok, checkCount_eq_ok]
  simp only [except_bind_eq_ok, pushLen_eq_ok, pushBinaries_eq_ok, checkSize_eq_ok]
  constructor
  · rintro ⟨hkey, ⟨hne, hvalid⟩, hcount, _, ⟨hlength, rfl⟩, _, ⟨-, rfl⟩, _, ⟨hfits, rfl⟩, rfl, hsize⟩
    exact ⟨hkey, ⟨hlength, hne, hcount, hvalid, hfits⟩, rfl, hsize⟩
  · rintro ⟨hkey, hstorable, rfl, hsize⟩
    have hcount := hstorable.count
    rw [maxBinaryCount] at hcount
    exact ⟨hkey, ⟨hstorable.nonempty, hstorable.valid⟩, hstorable.count, _, ⟨hstorable.key, rfl⟩, _,
      ⟨by omega, rfl⟩, _, ⟨hstorable.fits, rfl⟩, rfl, hsize⟩

/-! ### The decoder reads the layout -/

theorem consumes_take (len : Nat) (label : String) :
    Consumes (take len label) fun value used => used = value ∧ value.length = len :=
  consumes_splitAt

theorem fromLe_of_length {width : Nat} (h : bytes.length = width) : fromLe width bytes = some (ofLe bytes) := by
  rw [fromLe, if_pos h]

theorem consumes_number (width : Nat) (label : String) :
    Consumes (do let bytes ← take width label; expect (fromLe width bytes)) fun n used =>
      used = toLe width n ∧ n < 256 ^ width where
  ok := by
    intro s n t
    rw [bind_eq_ok]
    constructor
    · rintro ⟨bytes, u, htake, hn⟩
      obtain ⟨used, rfl, rfl, hlength⟩ := ((consumes_take width label).ok s bytes u).mp htake
      rw [fromLe_of_length hlength, expect_some] at hn
      cases hn
      grind [toLe_ofLe, ofLe_lt]
    · rintro ⟨used, rfl, rfl, hn⟩
      refine ⟨toLe width n, t, ((consumes_take width label).ok _ _ t).mpr ⟨_, rfl, rfl, length_toLe width n⟩, ?_⟩
      rw [fromLe_of_length (length_toLe width n), expect_some, ofLe_toLe hn]
      rfl
  safe := by
    intro s f t h
    rcases bind_eq_error.mp h with h | ⟨bytes, u, htake, h⟩
    · exact (consumes_take width label).safe s f t h
    · obtain ⟨used, -, -, hlength⟩ := ((consumes_take width label).ok s bytes u).mp htake
      rw [fromLe_of_length hlength, expect_some] at h
      cases h

theorem consumes_takeU32 (label : String) : Consumes (takeU32 label) fun n used => used = toLe 4 n ∧ n < 2 ^ 32 :=
  consumes_number 4 label

theorem consumes_takeU64 (label : String) : Consumes (takeU64 label) fun n used => used = toLe 8 n ∧ n < 2 ^ 64 :=
  consumes_number 8 label

theorem consumes_check {c : Prop} [Decidable c] {e : Error} :
    Consumes (if c then fail e else pure () : Op Bytes Error Unit) fun _ used => ¬ c ∧ used = [] := by
  grind [Consumes.fail, Consumes.pure]

theorem consumes_requireBytes (expected : Bytes) (label : String) :
    Consumes (requireBytes expected label) fun _ used => used = expected := by
  refine ((consumes_take expected.length label).bind fun value => consumes_check).congr fun _ used => ?_
  grind

theorem consumes_takeBinary : Consumes takeBinary fun binary used => used = binaryBytes binary ∧ Fits binary := by
  refine ((consumes_takeU32 _).bind fun keyLen => (consumes_takeU64 _).bind fun dataLen =>
    (consumes_take keyLen _).bind fun key => (consumes_take dataLen _).bind fun data =>
      Consumes.pure (PipelineBinaryBlob.mk key data)).congr fun binary used => ?_
  constructor
  · rintro ⟨_, _, _, rfl, ⟨rfl, hkey⟩, _, _, _, rfl, ⟨rfl, hdata⟩, key, _, _, rfl, ⟨rfl, rfl⟩, data, _, _, rfl,
      ⟨rfl, rfl⟩, rfl, rfl⟩
    exact ⟨by simp [binaryBytes], hkey, hdata⟩
  · rintro ⟨rfl, hkey, hdata⟩
    exact ⟨binary.key.length, toLe 4 _, toLe 8 binary.data.length ++ (binary.key ++ (binary.data ++ [])),
      by simp [binaryBytes], ⟨rfl, hkey⟩, binary.data.length, toLe 8 _, _, rfl, ⟨rfl, hdata⟩, binary.key, _, _, rfl,
      ⟨rfl, rfl⟩, binary.data, _, [], rfl, ⟨rfl, rfl⟩, rfl, rfl⟩

theorem consumes_takeBinaries (identity : PipelineBinaryCacheIdentity) (pipelineKey : Bytes) :
    Consumes (takeBinaries identity pipelineKey) fun binaries used =>
      used = layout identity pipelineKey binaries ∧ pipelineKey.length < 2 ^ 32 ∧ binaries ≠ [] ∧
        binaries.length ≤ maxBinaryCount ∧ ∀ binary ∈ binaries, Fits binary := by
  refine ((consumes_requireBytes cacheMagic _).bind fun _ => (consumes_requireBytes identity.deviceUuid.toList _).bind fun _ =>
    (consumes_requireBytes identity.driverUuid.toList _).bind fun _ =>
      (consumes_requireBytes (toLe 4 identity.driverVersion.toNat) _).bind fun _ => (consumes_takeU32 _).bind fun keyLen =>
        (consumes_take keyLen _).bind fun storedKey => consumes_check.bind fun _ => (consumes_takeU32 _).bind fun count =>
          consumes_check.bind fun _ => consumes_repeated consumes_takeBinary count).congr fun binaries used => ?_
  constructor
  · grind [layout, identityBytes]
  · rintro ⟨rfl, hkey, hne, hcount, hfits⟩
    have hcount' := hcount
    rw [maxBinaryCount] at hcount'
    have hzero : ¬ (binaries.length = 0 ∨ maxBinaryCount < binaries.length) := by
      rw [not_or, Nat.not_lt, List.length_eq_zero_iff]
      exact ⟨hne, hcount⟩
    refine ⟨(), cacheMagic, _, ?_, rfl, (), _, _, rfl, rfl, (), _, _, rfl, rfl, (), _, _, rfl, rfl, pipelineKey.length, _, _,
      rfl, ⟨rfl, hkey⟩, pipelineKey, _, _, rfl, ⟨rfl, rfl⟩, (), [], _, rfl, ⟨not_not.mpr rfl, rfl⟩, binaries.length, _, _,
      rfl, ⟨rfl, by omega⟩, (), [], _, rfl, ⟨hzero, rfl⟩, rfl, rfl, hfits⟩
    simp [layout, identityBytes]

/-! ### Decoding against encoding -/

theorem finish_eq_ok {input : Bytes} :
    finish binaries input = .ok archive ↔ input = [] ∧ validateArchive ⟨binaries⟩ = .ok () ∧ archive = ⟨binaries⟩ := by
  rw [finish]
  split
  case isTrue h => simp [h]
  case isFalse h =>
    rw [except_seq_eq_ok]
    simp [not_not.mp h, eq_comm]

theorem decodeArchive_eq_ok : decodeArchive bytes identity pipelineKey = .ok archive ↔
      Storable pipelineKey archive ∧ bytes = layout identity pipelineKey archive.binaries := by
  have htake := (consumes_takeBinaries identity pipelineKey).ok bytes
  rw [decodeArchive]
  constructor
  · intro h
    cases hrun : takeBinaries identity pipelineKey bytes with
    | error e rest =>
      rw [hrun] at h
      cases h
    | ok binaries rest =>
      rw [hrun] at h
      dsimp only at h
      obtain ⟨used, rfl, rfl, hkey, hne, hcount, hfits⟩ := (htake binaries rest).mp hrun
      cases hfinish : finish binaries rest with
      | error e =>
        rw [hfinish] at h
        cases h
      | ok decoded =>
        rw [hfinish] at h
        cases h
        obtain ⟨rfl, hvalid, rfl⟩ := (finish_eq_ok).mp hfinish
        exact ⟨⟨hkey, hne, hcount, (validateArchive_eq_ok.mp hvalid).2, hfits⟩, List.append_nil _⟩
  · rintro ⟨h, rfl⟩
    have hrun := (htake archive.binaries []).mpr ⟨_, (List.append_nil _).symm, rfl, h.key, h.nonempty, h.count, h.fits⟩
    have hvalid : validateArchive ⟨archive.binaries⟩ = .ok () := validateArchive_eq_ok.mpr ⟨h.nonempty, h.valid⟩
    rw [hrun]
    dsimp only
    rw [(finish_eq_ok).mpr ⟨rfl, hvalid, rfl⟩]
    rfl

theorem decodeArchive_returns (bytes pipelineKey : Bytes) (identity : PipelineBinaryCacheIdentity) :
    (∃ archive, decodeArchive bytes identity pipelineKey = .ok archive) ∨
      ∃ e, decodeArchive bytes identity pipelineKey = .error (.error e) := by
  rw [decodeArchive]
  cases hrun : takeBinaries identity pipelineKey bytes with
  | error fault rest => grind +splitImp +splitIndPred [consumes_takeBinaries]
  | ok binaries rest =>
    dsimp only
    cases finish binaries rest with
    | error e => exact .inr ⟨e, rfl⟩
    | ok archive => exact .inl ⟨archive, rfl⟩

/-- Two files of one content are files of one identity and one key. -/
theorem layout_injective {identity identity' : PipelineBinaryCacheIdentity} {pipelineKey pipelineKey' : Bytes}
    {binaries binaries' : List PipelineBinaryBlob} (hkey : pipelineKey.length < 2 ^ 32) (hkey' : pipelineKey'.length < 2 ^ 32)
    (h : layout identity pipelineKey binaries = layout identity' pipelineKey' binaries') :
    identity = identity' ∧ pipelineKey = pipelineKey' := by
  simp only [layout, identityBytes, List.append_assoc] at h
  obtain ⟨-, h⟩ := List.append_inj h rfl
  obtain ⟨hdevice, h⟩ := List.append_inj h (by simp)
  obtain ⟨hdriver, h⟩ := List.append_inj h (by simp)
  obtain ⟨hversion, h⟩ := List.append_inj h (by simp)
  obtain ⟨hlength, h⟩ := List.append_inj h (by simp)
  have hlength : pipelineKey.length = pipelineKey'.length := by
    have hkept : ofLe (toLe 4 pipelineKey.length) = pipelineKey.length := ofLe_toLe hkey
    rw [← hkept, hlength, ofLe_toLe hkey']
  have hversion : identity.driverVersion = identity'.driverVersion := by
    apply UInt32.toNat_inj.mp
    have hkept : ofLe (toLe 4 identity.driverVersion.toNat) = identity.driverVersion.toNat :=
      ofLe_toLe identity.driverVersion.toNat_lt
    rw [← hkept, hversion, ofLe_toLe identity'.driverVersion.toNat_lt]
  refine ⟨?_, (List.append_inj h hlength).1⟩
  cases identity
  cases identity'
  grind [Vector.toList_inj]

theorem archive_format_canonical (identity : PipelineBinaryCacheIdentity) (pipelineKey : Bytes) :
    (∀ archive bytes, encodeArchive identity pipelineKey archive = .ok bytes →
        decodeArchive bytes identity pipelineKey = .ok archive ∧
          ∀ identity' pipelineKey', (identity', pipelineKey') ≠ (identity, pipelineKey) →
            ∃ e, decodeArchive bytes identity' pipelineKey' = .error (.error e)) ∧
      ∀ bytes, (∃ e, decodeArchive bytes identity pipelineKey = .error (.error e)) ∨
        ∃ archive, decodeArchive bytes identity pipelineKey = .ok archive ∧
          bytes = layout identity pipelineKey archive.binaries ∧
          (validatePipelineKey pipelineKey = .ok () → bytes.length ≤ maxArchiveBytes →
            encodeArchive identity pipelineKey archive = .ok bytes) := by
  constructor
  · intro archive bytes h
    obtain ⟨-, hstorable, rfl, -⟩ := encodeArchive_eq_ok.mp h
    refine ⟨decodeArchive_eq_ok.mpr ⟨hstorable, rfl⟩, fun identity' pipelineKey' hother => ?_⟩
    rcases decodeArchive_returns (layout identity pipelineKey archive.binaries) pipelineKey' identity' with ⟨archive', h'⟩ | h'
    · obtain ⟨hstorable', hlayout⟩ := decodeArchive_eq_ok.mp h'
      grind [layout_injective, hstorable.key, hstorable'.key]
    · exact h'
  · intro bytes
    rcases decodeArchive_returns bytes pipelineKey identity with ⟨archive, h⟩ | h
    · obtain ⟨hstorable, hlayout⟩ := decodeArchive_eq_ok.mp h
      exact .inr ⟨archive, h, hlayout, fun hkey hsize => encodeArchive_eq_ok.mpr ⟨hkey, hstorable, hlayout, hsize⟩⟩
    · exact .inl h

def sampleIdentity : PipelineBinaryCacheIdentity := ⟨Vector.replicate 16 1, Vector.replicate 16 2, 3⟩

def sampleArchive : PipelineBinaryArchive := ⟨[⟨[4, 5], [6, 7, 8]⟩]⟩

theorem sample_archive_round_trip :
    decodeArchive (layout sampleIdentity [9, 10] sampleArchive.binaries) sampleIdentity [9, 10] = .ok sampleArchive ∧
      ∃ e, decodeArchive (layout sampleIdentity [9, 10] sampleArchive.binaries) sampleIdentity [9, 11] =
        .error (.error e) := by
  have hencode : encodeArchive sampleIdentity [9, 10] sampleArchive =
      .ok (layout sampleIdentity [9, 10] sampleArchive.binaries) := by decide
  obtain ⟨hdecode, hother⟩ := (archive_format_canonical sampleIdentity [9, 10]).1 _ _ hencode
  exact ⟨hdecode, hother sampleIdentity [9, 11] (by decide)⟩

/-- A file with an empty key, which `encode_archive` never writes. -/
theorem keyless_archive_decoded :
    ¬ ∀ (identity : PipelineBinaryCacheIdentity) (pipelineKey bytes : Bytes) (archive : PipelineBinaryArchive),
      decodeArchive bytes identity pipelineKey = .ok archive → encodeArchive identity pipelineKey archive = .ok bytes := by
  intro h
  have hdecode : decodeArchive (layout sampleIdentity [] sampleArchive.binaries) sampleIdentity [] = .ok sampleArchive := by
    decide
  have hkey := (encodeArchive_eq_ok.mp (h sampleIdentity [] _ sampleArchive hdecode)).1
  exact absurd rfl (validatePipelineKey_eq_ok.mp hkey).1

end BinaryCache

end TensorDE.Renderer
