import TensorDE.Lib.Bytes

namespace TensorDE.Codec

/-- The number a little-endian byte string denotes. -/
def ofLe : Bytes → Nat
  | [] => 0
  | b :: bytes => b.toNat + 256 * ofLe bytes

def ofBe (bytes : Bytes) : Nat := ofLe bytes.reverse

def toLe : Nat → Nat → Bytes
  | 0, _ => []
  | width + 1, n => UInt8.ofNat n :: toLe width (n / 256)

@[simp] theorem length_toLe (width n : Nat) : (toLe width n).length = width := by
  induction width generalizing n with
  | zero => rfl
  | succ width ih => simp [toLe, ih]

theorem ofLe_toLe {width n : Nat} (h : n < 256 ^ width) : ofLe (toLe width n) = n := by
  induction width generalizing n with
  | zero => grind [toLe, ofLe]
  | succ width ih => grind [toLe, ofLe, UInt8.toNat_ofNat']

theorem ofLe_lt (bytes : Bytes) : ofLe bytes < 256 ^ bytes.length := by
  induction bytes with
  | nil => simp [ofLe]
  | cons b bytes ih =>
    have hb := b.toNat_lt
    rw [ofLe, List.length_cons, Nat.pow_succ]
    omega

theorem toLe_ofLe (bytes : Bytes) : toLe bytes.length (ofLe bytes) = bytes := by
  induction bytes with
  | nil => rfl
  | cons b bytes ih =>
    have hb := b.toNat_lt
    have hdiv : (b.toNat + 256 * ofLe bytes) / 256 = ofLe bytes := by omega
    have hbyte : UInt8.ofNat (b.toNat + 256 * ofLe bytes) = b := by
      apply UInt8.toNat_inj.mp
      rw [UInt8.toNat_ofNat']
      omega
    rw [List.length_cons, ofLe, toLe, hdiv, ih, hbyte]

end TensorDE.Codec
