import TensorDE.Lib.Codec

namespace TensorDE.Lanes

open Bytes Codec List

/-- Subtract one from every lane of a word, least significant lane first, with the borrow that
comes into it. -/
def decrement : Bool → Bytes → Bytes
  | _, [] => []
  | borrow, x :: lanes => (x - 1 - borrow.toUInt8) :: decrement (x = 0 || x = 1 && borrow) lanes

/-- The lanes out of which `decrement` borrows. A lane holding one counts when the lane below it does. -/
def borrows : Bool → Bytes → List Bool
  | _, [] => []
  | borrow, x :: lanes => (x = 0 || x = 1 && borrow) :: borrows (x = 0 || x = 1 && borrow) lanes

def highBits (flags : List Bool) : Bytes := flags.map fun flag => if flag then 128 else 0

@[simp] theorem length_decrement (borrow : Bool) (lanes : Bytes) : (decrement borrow lanes).length = lanes.length := by
  induction lanes generalizing borrow with
  | nil => rfl
  | cons x lanes ih => simp [decrement, ih]

@[simp] theorem length_borrows (borrow : Bool) (lanes : Bytes) : (borrows borrow lanes).length = lanes.length := by
  induction lanes generalizing borrow with
  | nil => rfl
  | cons x lanes ih => simp [borrows, ih]

theorem lane_spec (borrow : Bool) : ∀ x : UInt8,
    (x - 1 - borrow.toUInt8).toNat + 1 + borrow.toNat = x.toNat + 256 * (x = 0 || x = 1 && borrow : Bool).toNat ∧
      (x - 1 - borrow.toUInt8) &&& ~~~x &&& 128 = if (x = 0 || x = 1 && borrow : Bool) then 128 else 0 := by
  cases borrow <;> exact forall_byte (by decide +kernel)

theorem decrement_lane (x : UInt8) (borrow : Bool) :
    (x - 1 - borrow.toUInt8).toNat + 1 + borrow.toNat = x.toNat + 256 * (x = 0 || x = 1 && borrow : Bool).toNat :=
  (lane_spec borrow x).1

theorem high_lane (x : UInt8) (borrow : Bool) :
    (x - 1 - borrow.toUInt8) &&& ~~~x &&& 128 = if (x = 0 || x = 1 && borrow : Bool) then 128 else 0 :=
  (lane_spec borrow x).2

theorem ofLe_decrement (borrow : Bool) (lanes : Bytes) :
    ∃ carry, carry ≤ 1 ∧ ofLe (decrement borrow lanes) + ofLe (replicate lanes.length 1) + borrow.toNat =
      ofLe lanes + 256 ^ lanes.length * carry := by
  induction lanes generalizing borrow with
  | nil => exact ⟨borrow.toNat, borrow.toNat_le, by simp [decrement, ofLe]⟩
  | cons x lanes ih =>
    obtain ⟨carry, hle, hsum⟩ := ih (x = 0 || x = 1 && borrow)
    have hlane := decrement_lane x borrow
    refine ⟨carry, hle, ?_⟩
    grind [decrement, ofLe]

theorem testBit_ofLe (lanes : Bytes) (i : Nat) :
    (ofLe lanes).testBit i = (lanes.getD (i / 8) 0).toNat.testBit (i % 8) := by
  induction lanes generalizing i with
  | nil => simp [ofLe]
  | cons x lanes ih =>
    have hsplit : ofLe (x :: lanes) = 2 ^ 8 * ofLe lanes + x.toNat := by
      rw [ofLe]
      omega
    rw [hsplit, Nat.testBit_two_pow_mul_add _ x.toNat_lt]
    by_cases hi : i < 8
    · have hdiv : i / 8 = 0 := by omega
      have hmod : i % 8 = i := by omega
      simp [hi, hdiv, hmod]
    · obtain ⟨k, rfl⟩ : ∃ k, i = k + 8 := ⟨i - 8, by omega⟩
      have hdiv : (k + 8) / 8 = k / 8 + 1 := by omega
      have hmod : (k + 8) % 8 = k % 8 := by omega
      simp [hdiv, hmod, ih]

variable {a b : Bytes}

theorem getD_zipWith {f : UInt8 → UInt8 → UInt8} (h0 : f 0 0 = 0) (h : a.length = b.length) (k : Nat) :
    (List.zipWith f a b).getD k 0 = f (a.getD k 0) (b.getD k 0) := by
  grind

theorem ofLe_and (h : a.length = b.length) : ofLe a &&& ofLe b = ofLe (List.zipWith (· &&& ·) a b) := by
  apply Nat.eq_of_testBit_eq
  grind [testBit_ofLe, UInt8.toNat_and]

theorem ofLe_xor (h : a.length = b.length) : ofLe a ^^^ ofLe b = ofLe (List.zipWith (· ^^^ ·) a b) := by
  apply Nat.eq_of_testBit_eq
  grind [testBit_ofLe, getD_zipWith, UInt8.toNat_xor]

theorem ofLe_not (lanes : Bytes) : ofLe (lanes.map (~~~ ·)) + ofLe lanes + 1 = 256 ^ lanes.length := by
  induction lanes with
  | nil => rfl
  | cons x lanes ih =>
    have hx : (~~~x).toNat + x.toNat = 255 := by
      have hlt := x.toNat_lt
      have hsize : UInt8.size = 256 := rfl
      rw [UInt8.toNat_not]
      omega
    rw [map_cons, ofLe, ofLe, length_cons, Nat.pow_succ, ← ih]
    omega

theorem highBits_borrows (borrow : Bool) (lanes : Bytes) :
    List.zipWith (· &&& ·) (List.zipWith (· &&& ·) (decrement borrow lanes) (lanes.map (~~~ ·)))
      (replicate lanes.length 128) = highBits (borrows borrow lanes) := by
  induction lanes generalizing borrow with
  | nil => rfl
  | cons x lanes ih => grind [high_lane, decrement, borrows, highBits, zipWith_cons_cons]

variable {x : UInt64}

/-- The classic test for zero lanes, with what its borrows really flag. -/
theorem zeroLanes_eq {lanes : Bytes} (hlen : lanes.length = 8) (hx : x.toNat = ofLe lanes) :
    ((x - 0x0101010101010101) &&& ~~~x &&& 0x8080808080808080).toNat = ofLe (highBits (borrows false lanes)) := by
  obtain ⟨carry, hcarry, hsum⟩ := ofLe_decrement false lanes
  have hlt := ofLe_lt (decrement false lanes)
  have hlt' := ofLe_lt lanes
  have hnot := ofLe_not lanes
  rw [length_decrement] at hlt
  rw [hlen] at hlt hlt' hsum hnot
  have hones : ofLe (replicate 8 1) = 0x0101010101010101 := by decide
  have hhigh : ofLe (replicate 8 128) = 0x8080808080808080 := by decide
  have hsub : (x - 0x0101010101010101).toNat = ofLe (decrement false lanes) := by
    rw [UInt64.toNat_sub, hx]
    simp only [hones, Bool.toNat_false] at hsum
    have hc : (0x0101010101010101 : UInt64).toNat = 0x0101010101010101 := rfl
    omega
  have hneg : (~~~x).toNat = ofLe (lanes.map (~~~ ·)) := by
    rw [UInt64.toNat_not, hx]
    have hs : UInt64.size = 256 ^ 8 := rfl
    omega
  rw [UInt64.toNat_and, UInt64.toNat_and, hsub, hneg, ofLe_and (by simp)]
  change _ &&& 0x8080808080808080 = _
  rw [← hhigh, ← hlen, ofLe_and (by simp), highBits_borrows]

@[simp] theorem length_highBits (flags : List Bool) : (highBits flags).length = flags.length := length_map ..

theorem testBit_highBits (flags : List Bool) (i : Nat) :
    (ofLe (highBits flags)).testBit i = (decide (i % 8 = 7) && flags.getD (i / 8) false) := by
  have hlane : (highBits flags).getD (i / 8) 0 = if flags.getD (i / 8) false then 128 else 0 := by
    simp only [highBits, getD_eq_getElem?_getD, getElem?_map]
    cases flags[i / 8]? <;> rfl
  have hmod : i % 8 < 8 := Nat.mod_lt _ (by decide)
  rw [testBit_ofLe, hlane]
  generalize i % 8 = j at hmod
  cases flags.getD (i / 8) false
  · simp
  · interval_cases j <;> decide

variable {flags : List Bool}

theorem ofLe_highBits_eq_zero : ofLe (highBits flags) = 0 ↔ true ∉ flags := by
  induction flags with
  | nil => simp [highBits, ofLe]
  | cons flag flags ih =>
    have hcons : highBits (flag :: flags) = (if flag then 128 else 0) :: highBits flags := rfl
    rw [hcons, ofLe]
    cases flag
    · simpa using ih
    · simp

theorem highBits_or {a b : List Bool} (h : a.length = b.length) :
    ofLe (highBits a) ||| ofLe (highBits b) = ofLe (highBits (List.zipWith (· || ·) a b)) := by
  apply Nat.eq_of_testBit_eq
  grind [testBit_highBits]

theorem highBits_not (hlen : flags.length = 8) (hx : x.toNat = ofLe (highBits flags)) :
    (0x8080808080808080 &&& ~~~x).toNat = ofLe (highBits (flags.map (! ·))) := by
  have hnot := ofLe_not (highBits flags)
  rw [length_highBits, hlen] at hnot
  have hneg : (~~~x).toNat = ofLe ((highBits flags).map (~~~ ·)) := by
    rw [UInt64.toNat_not, hx]
    have hs : UInt64.size = 256 ^ 8 := rfl
    omega
  have hhigh : ofLe (replicate 8 128) = 0x8080808080808080 := by decide
  have hlanes : ∀ flags : List Bool, List.zipWith (· &&& ·) (replicate flags.length 128)
      ((highBits flags).map (~~~ ·)) = highBits (flags.map (! ·)) := by
    intro flags
    induction flags with
    | nil => rfl
    | cons flag flags ih => cases flag <;> exact congrArg _ ih
  rw [UInt64.toNat_and, hneg]
  change 0x8080808080808080 &&& _ = _
  rw [← hhigh, ofLe_and (by simp [hlen]), ← hlen, hlanes]

theorem zipWith_replicate {α : Type} (f : α → α → α) (l : List α) (a : α) :
    List.zipWith f l (replicate l.length a) = l.map (f · a) := by
  induction l with
  | nil => rfl
  | cons b l ih => rw [length_cons, replicate_succ, zipWith_cons_cons, ih, map_cons]

def trailingZeros (x : UInt64) : Nat := (List.range 64).findIdx fun i => x.toNat.testBit i

theorem trailingZeros_highBits (hlen : flags.length = 8)
    (hx : x.toNat = ofLe (highBits flags)) (h : true ∈ flags) : trailingZeros x >>> 3 = flags.findIdx id := by
  have hidx : flags.findIdx id < 8 := hlen ▸ findIdx_lt_length_of_exists ⟨true, h, rfl⟩
  have hget : flags.getD (flags.findIdx id) false = true := by
    have hlt : flags.findIdx id < flags.length := hlen ▸ hidx
    rw [getD_eq_getElem?_getD, getElem?_eq_getElem hlt]
    exact findIdx_getElem (w := hlt)
  have hbefore : ∀ k < flags.findIdx id, flags.getD k false = false := by
    intro k hk
    have hlt : k < flags.length := by omega
    have hnot := not_of_lt_findIdx hk
    rw [getD_eq_getElem?_getD, getElem?_eq_getElem hlt]
    simpa using hnot
  have hzeros : trailingZeros x = 8 * flags.findIdx id + 7 := by
    rw [trailingZeros, hx]
    apply (findIdx_eq (by simp; omega)).mpr
    simp only [getElem_range, testBit_highBits]
    constructor
    · grind
    · grind
  omega

end TensorDE.Lanes
