import TensorDE.Lib.Effect

namespace TensorDE.Align

open Effect

/-- `value & !mask` on 64-bit words. -/
def clear (value mask : Nat) : Nat := value &&& (2 ^ 64 - 1 - mask)

/-- The least multiple of a power of two at or above `value`, unless it leaves the 64-bit range. -/
def alignUp (value alignment : Nat) : Option Nat :=
  if alignment = 0 then none
  else (checkedAdd value (alignment - 1)).map fun value => clear value (alignment - 1)

def alignDown (value alignment : Nat) : Nat := clear value (alignment - 1)

variable {value alignment : Nat}

theorem clear_eq (h : alignment.isPowerOfTwo) (ha : alignment < 2 ^ 64) (hv : value < 2 ^ 64) :
    clear value (alignment - 1) = value - value % alignment := by
  obtain ⟨k, rfl⟩ := h
  have hk : k < 64 := (Nat.pow_lt_pow_iff_right (by decide)).mp ha
  have hmod : value - value % 2 ^ k = 2 ^ k * (value / 2 ^ k) := by
    have := Nat.div_add_mod value (2 ^ k)
    omega
  have hmask : 2 ^ 64 - 1 - (2 ^ k - 1) = 2 ^ k * (2 ^ (64 - k) - 1) := by
    rw [Nat.mul_sub, ← pow_add, Nat.add_sub_cancel' hk.le]
    omega
  rw [clear, hmask, hmod]
  apply Nat.eq_of_testBit_eq
  intro i
  rw [Nat.testBit_and, Nat.testBit_two_pow_mul, Nat.testBit_two_pow_mul, Nat.testBit_two_pow_sub_one,
    Nat.testBit_div_two_pow]
  by_cases hi : k ≤ i
  · by_cases h64 : i < 64
    · simp [hi, show i - k < 64 - k by omega]
    · have hlt : value < 2 ^ i := lt_of_lt_of_le hv (Nat.pow_le_pow_right (by decide) (by omega))
      simp [hi, Nat.testBit_lt_two_pow hlt]
  · simp [hi]

theorem alignDown_le (value alignment : Nat) : alignDown value alignment ≤ value := Nat.and_le_left

variable {start : Nat}

section

variable (h : alignment.isPowerOfTwo)
include h

theorem alignUp_spec (ha : alignment < 2 ^ 64)
    (hs : alignUp value alignment = some start) : value ≤ start ∧ start < value + alignment ∧ alignment ∣ start := by
  have hpos := Nat.pos_of_isPowerOfTwo h
  rw [alignUp, if_neg (by omega)] at hs
  obtain ⟨sum, hsum, rfl⟩ := Option.map_eq_some_iff.mp hs
  simp only [checkedAdd, Option.ite_none_right_eq_some, Option.some.injEq] at hsum
  obtain ⟨hlt, rfl⟩ := hsum
  rw [clear_eq h ha hlt]
  have hmod := Nat.mod_lt (value + (alignment - 1)) hpos
  exact ⟨by omega, by omega, Nat.dvd_sub_mod _⟩

/-- Where it fails, no multiple fits: the word size is itself a multiple of the alignment. -/
theorem alignUp_none (ha : alignment < 2 ^ 64)
    (hs : alignUp value alignment = none) (hle : value ≤ start) (hdvd : alignment ∣ start) : 2 ^ 64 ≤ start := by
  have hpos := Nat.pos_of_isPowerOfTwo h
  rw [alignUp, if_neg (by omega)] at hs
  have hsum : 2 ^ 64 ≤ value + (alignment - 1) := by
    by_contra hlt
    rw [checkedAdd, if_pos (Nat.lt_of_not_le hlt)] at hs
    cases hs
  obtain ⟨k, rfl⟩ := h
  have hk : k < 64 := (Nat.pow_lt_pow_iff_right (by decide)).mp ha
  obtain ⟨m, hm⟩ : 2 ^ k ∣ 2 ^ 64 := pow_dvd_pow 2 hk.le
  obtain ⟨n, rfl⟩ := hdvd
  have hmn : m ≤ n := by
    by_contra hlt
    have : 2 ^ k * (n + 1) ≤ 2 ^ k * m := Nat.mul_le_mul_left _ (by omega)
    rw [Nat.mul_add] at this
    omega
  exact hm ▸ Nat.mul_le_mul_left _ hmn

theorem le_of_alignUp {start least : Nat} (ha : alignment < 2 ^ 64)
    (hs : alignUp value alignment = some least) (hle : value ≤ start) (hdvd : alignment ∣ start) : least ≤ start := by
  obtain ⟨_, hlt, hmul⟩ := alignUp_spec h ha hs
  obtain ⟨m, rfl⟩ := hmul
  obtain ⟨n, rfl⟩ := hdvd
  have hmn : m ≤ n := by
    by_contra hnm
    have : alignment * (n + 1) ≤ alignment * m := Nat.mul_le_mul_left _ (by omega)
    rw [Nat.mul_add] at this
    omega
  exact Nat.mul_le_mul_left _ hmn

end

end TensorDE.Align
