import Mathlib.Tactic

namespace TensorDE.Scene

namespace SceneParticleInitializerOrder

def maxCount : Nat := 8

def rawKind (packedLow packedHigh : UInt16) (index : Nat) : UInt16 :=
  let packed := if index < 4 then packedLow else packedHigh
  (packed >>> UInt16.ofNat (index % 4 * 4)) &&& 0xf

/-- The first `count` nibbles name initializers and the others are zero. -/
def ordered (count : Nat) (packedLow packedHigh : UInt16) : Bool :=
  (List.range maxCount).all fun index =>
    let raw := rawKind packedLow packedHigh index
    if index < count then 1 ≤ raw && raw ≤ 9 else raw == 0

end SceneParticleInitializerOrder

/-- Authored initializer order packed into two 16-bit lanes, one nibble an
initializer. -/
structure SceneParticleInitializerOrder where
  count : UInt8
  (packedLow packedHigh : UInt16)
  countLimit : count.toNat ≤ SceneParticleInitializerOrder.maxCount
  valid : SceneParticleInitializerOrder.ordered count.toNat packedLow packedHigh = true

namespace SceneParticleInitializerOrder

def fromPacked (count packedLow packedHigh : UInt32) : Option SceneParticleInitializerOrder :=
  if h : count.toNat ≤ maxCount ∧ packedLow.toNat < 2 ^ 16 ∧ packedHigh.toNat < 2 ^ 16 then
    if hv : ordered count.toUInt8.toNat packedLow.toUInt16 packedHigh.toUInt16 = true then
      some ⟨count.toUInt8, packedLow.toUInt16, packedHigh.toUInt16,
        Nat.le_trans (by rw [UInt32.toNat_toUInt8]; exact Nat.mod_le _ _) h.1, hv⟩
    else none
  else none

theorem fromPacked_fields (order : SceneParticleInitializerOrder) :
    fromPacked order.count.toUInt32 order.packedLow.toUInt32 order.packedHigh.toUInt32 = some order := by
  have hlimits : order.count.toUInt32.toNat ≤ maxCount ∧ order.packedLow.toUInt32.toNat < 2 ^ 16 ∧
      order.packedHigh.toUInt32.toNat < 2 ^ 16 := by
    simpa using ⟨order.countLimit, order.packedLow.toNat_lt, order.packedHigh.toNat_lt⟩
  rw [fromPacked, dif_pos hlimits]
  simp [order.valid]

end SceneParticleInitializerOrder

end TensorDE.Scene
