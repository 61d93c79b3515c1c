import Mathlib.Tactic

/-! Signed 32-bit arithmetic that stays at the end of the range instead of leaving it. -/

namespace TensorDE.Saturating

def i32Min : Int := -2 ^ 31

def i32Max : Int := 2 ^ 31 - 1

def clampI32 (value : Int) : Int := max i32Min (min value i32Max)

def addI32 (a b : Int) : Int := clampI32 (a + b)

def subI32 (a b : Int) : Int := clampI32 (a - b)

variable {a b value : Int}

theorem clampI32_mem (value : Int) : i32Min ≤ clampI32 value ∧ clampI32 value ≤ i32Max := by
  simp only [clampI32, i32Min, i32Max]
  omega

theorem clampI32_of_mem (hmin : i32Min ≤ value) (hmax : value ≤ i32Max) : clampI32 value = value := by
  rw [clampI32, min_eq_left hmax, max_eq_right hmin]

theorem addI32_of_nonneg (h : 0 ≤ a + b) (hmax : a + b ≤ i32Max) : addI32 a b = a + b :=
  clampI32_of_mem (by rw [i32Min]; omega) hmax

theorem subI32_of_nonneg (h : 0 ≤ a - b) (hmax : a - b ≤ i32Max) : subI32 a b = a - b :=
  clampI32_of_mem (by rw [i32Min]; omega) hmax

end TensorDE.Saturating
