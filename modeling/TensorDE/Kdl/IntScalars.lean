import TensorDE.Kdl.Encode
import TensorDE.Kdl.Numbers

set_option linter.dupNamespace false

namespace TensorDE.Kdl

open Effect Utf8 List

inductive IntType where
  | i8 | i16 | i32 | i64 | i128 | isize | u8 | u16 | u32 | u64 | u128 | usize
deriving DecidableEq

namespace IntType

def name : IntType → String
  | i8 => "i8"
  | i16 => "i16"
  | i32 => "i32"
  | i64 => "i64"
  | i128 => "i128"
  | isize => "isize"
  | u8 => "u8"
  | u16 => "u16"
  | u32 => "u32"
  | u64 => "u64"
  | u128 => "u128"
  | usize => "usize"

def bits : IntType → Nat
  | i8 | u8 => 8
  | i16 | u16 => 16
  | i32 | u32 => 32
  | i64 | u64 | isize | usize => 64
  | i128 | u128 => 128

def signed : IntType → Bool
  | i8 | i16 | i32 | i64 | i128 | isize => true
  | _ => false

variable (t : IntType)

def least : Int := if t.signed then -2 ^ (t.bits - 1) else 0

def bound : Int := if t.signed then 2 ^ (t.bits - 1) else 2 ^ t.bits

def InRange (n : Int) : Prop := t.least ≤ n ∧ n < t.bound

instance (t : IntType) (n : Int) : Decidable (t.InRange n) := inferInstanceAs (Decidable (_ ∧ _))

/-- Every integer but a `u128` is written as an `i128`. -/
def writeScalar (n : Int) : Write := if t = u128 then writeU128 n.toNat else writeI128 n

def decodeScalar : Value → Except ErrorCtx Int
  | .int n =>
    if t.InRange n then .ok n
    else .error ((ErrorCtx.new .typeMismatch 0).withMessage s!"integer out of range for {t.name}")
  | _ => .error ((ErrorCtx.new .typeMismatch 0).withExpected "integer")

variable {n : Int}

theorem InRange.minimum {t : IntType} (h : t.InRange n) : -2 ^ 127 ≤ n := by
  grind +splitImp +splitIndPred [InRange, least, signed, bits]

theorem InRange.nonneg (h : u128.InRange n) : 0 ≤ n := h.1

end IntType

section Digits

theorem hexDigit_digitChar : ∀ d : Fin 16, hexDigit (Nat.digitChar d) = d := by decide

theorem isAsciiDigit_digitChar : ∀ d : Fin 10, isAsciiDigit (Nat.digitChar d) = true := by decide

variable {base n : Nat}

variable {c : Char}

theorem mem_digitsOf (h : c ∈ digitsOf base n) : c = '0' ∨ ∃ d ∈ Nat.digits base n, Nat.digitChar d = c := by
  grind [digitsOf]

theorem ofDigits_digitsOf (h2 : 2 ≤ base) (h16 : base ≤ 16) :
    Nat.ofDigits base ((digitsOf base n).reverse.map hexDigit) = n := by
  rw [digitsOf]
  split
  next h =>
    rw [h]
    rfl
  next h =>
    have hid : (Nat.digits base n).map (hexDigit ∘ Nat.digitChar) = (Nat.digits base n).map id :=
      map_congr_left fun d hd => hexDigit_digitChar ⟨d, (Nat.digits_lt_base h2 hd).trans_le h16⟩
    rw [← map_reverse, reverse_reverse, map_map, hid, map_id, Nat.ofDigits_digits]

theorem isAsciiDigit_of_mem (h : c ∈ digitsOf 10 n) : isAsciiDigit c = true := by
  obtain rfl | ⟨d, hd, rfl⟩ := mem_digitsOf h
  · rfl
  · exact isAsciiDigit_digitChar ⟨d, Nat.digits_lt_base (by decide) hd⟩

theorem digitsFrom_of_digits {s : Str} (h : ∀ c ∈ s, isAsciiDigit c = true) : digitsFrom isAsciiDigit false s = true := by
  induction s with
  | nil => rfl
  | cons c s ih =>
    have hc := h c (mem_cons_self ..)
    have hne : c ≠ '_' := by rintro rfl; cases hc
    grind [digitsFrom]

theorem digitRun_digitsOf (n : Nat) : digitRun Radix.dec.isDigit (digitsOf 10 n) = true := by
  have hall : ∀ c ∈ digitsOf 10 n, isAsciiDigit c = true := fun c => isAsciiDigit_of_mem
  cases hs : digitsOf 10 n with
  | nil =>
    rw [digitsOf] at hs
    split at hs
    · cases hs
    · rename_i hn
      simp [Nat.digits_eq_nil_iff_eq_zero, hn] at hs
  | cons c s =>
    rw [hs] at hall
    rw [digitRun, Bool.and_eq_true]
    exact ⟨hall c (mem_cons_self ..), digitsFrom_of_digits fun d hd => hall d (mem_cons_of_mem c hd)⟩

end Digits

def decimal (n : Int) : IntLiteral :=
  ⟨if n < 0 then .minus else .none, .dec, false, digitsOf 10 n.natAbs, digitRun_digitsOf _⟩

theorem decimal_sign (n : Int) : (decimal n).sign = if n < 0 then .minus else .none := rfl

theorem value_decimal (n : Int) : (decimal n).value = n := by
  have hfilter : (digitsOf 10 n.natAbs).filter (· ≠ '_') = digitsOf 10 n.natAbs := by
    rw [filter_eq_self]
    intro c hc
    have := isAsciiDigit_of_mem hc
    rw [decide_eq_true_eq]
    rintro rfl
    cases this
  have hmag : (decimal n).magnitude = n.natAbs := by
    change Nat.ofDigits 10 (((digitsOf 10 n.natAbs).filter (· ≠ '_')).reverse.map hexDigit) = _
    grind [ofDigits_digitsOf]
  grind +splitImp +splitIndPred [IntLiteral.value, decimal_sign]

variable {n : Int}

theorem formatU128_eq (h : 0 ≤ n) : formatU128 n.toNat = (decimal n).text := by
  have hsign : (decimal n).sign.text = [] := by rw [decimal_sign, if_neg (by omega)]; rfl
  rw [IntLiteral.text, hsign, formatU128]
  congr 1
  omega

theorem formatI128_eq (n : Int) : formatI128 n = (decimal n).text := by
  rw [formatI128]
  split
  next h =>
    rw [h]
    decide +kernel
  next h =>
    split
    next hpos => exact formatU128_eq hpos
    next hneg =>
      have hsign : (decimal n).sign.text = ['-'] := by rw [decimal_sign, if_pos (by omega)]; rfl
      rw [IntLiteral.text, hsign, formatU128]
      congr 2
      omega

theorem writeScalar_decimal {t : IntType} (hn : t.InRange n) :
    t.writeScalar n .string = .ok () (.grow (encode (decimal n).text)) := by
  rw [IntType.writeScalar]
  split
  next ht =>
    subst ht
    rw [writeU128, formatU128_eq hn.nonneg]
    exact (Prints.str _).1 []
  next => rw [writeI128, formatI128_eq]; exact (Prints.str _).1 []

/-- Reading at `i` and decoding gives the value back. -/
def DecodesTo (t : IntType) (n : Int) (src : Source) (i : Nat) : Prop :=
  ∃ v j, parseValueAfterType src i = .ok v j ∧ t.decodeScalar v = .ok n

section RoundTrip

variable {src : Source} {i : Nat} {rest : Str} {t : IntType} {n : Int}

theorem decodesTo_decimal (hn : t.InRange n) (hrest : Terminated rest) (h : At src i ((decimal n).text ++ rest)) :
    DecodesTo t n src i ↔ n < 2 ^ 127 := by
  have hrun := parseNumber_run _ hrest h
  rw [← parseValueAfterType_number _ h, IntLiteral.parsed_eq, value_decimal] at hrun
  by_cases hlt : n < 2 ^ 127
  · rw [if_pos ⟨⟨hn.minimum, hlt⟩, fun h => h.1 rfl⟩, numberResult] at hrun
    exact ⟨fun _ => hlt, fun _ => ⟨_, _, hrun, by rw [IntType.decodeScalar, if_pos hn]⟩⟩
  · rw [if_neg fun h => hlt h.1.2, numberResult] at hrun
    refine iff_of_false ?_ hlt
    rintro ⟨v, j, hread, -⟩
    rw [hrun] at hread
    cases hread

/-- What is written for an integer decodes to it, but for the upper half of `u128`,
which the reader has no value for. -/
theorem integer_roundTrips_iff (hn : t.InRange n) : ∃ text, t.writeScalar n .string = .ok () (.grow (encode text)) ∧
      ∀ src i rest, Terminated rest → At src i (text ++ rest) → (DecodesTo t n src i ↔ n < 2 ^ 127) :=
  ⟨_, writeScalar_decimal hn, fun _ _ _ hrest h => decodesTo_decimal hn hrest h⟩

theorem integer_roundTrips_min : ∃ text, IntType.i128.writeScalar (-2 ^ 127) .string = .ok () (.grow (encode text)) ∧
      ∀ src i rest, Terminated rest → At src i (text ++ rest) →
        (DecodesTo .i128 (-2 ^ 127) src i ↔ (-2 ^ 127 : Int) < 2 ^ 127) :=
  integer_roundTrips_iff ⟨by norm_num [IntType.least, IntType.signed, IntType.bits],
    by norm_num [IntType.bound, IntType.signed, IntType.bits]⟩

/-- The greatest `u128` does not come back. -/
theorem u128_max_lost : IntType.u128.InRange (2 ^ 128 - 1) ∧
      ∃ text, IntType.u128.writeScalar (2 ^ 128 - 1) .string = .ok () (.grow (encode text)) ∧
        ¬ DecodesTo .u128 (2 ^ 128 - 1) ⟨text ++ [], false, 2 ^ 64, 2 ^ 64, 64⟩ 0 := by
  have hn : IntType.u128.InRange (2 ^ 128 - 1) := ⟨by norm_num [IntType.least, IntType.signed],
    by norm_num [IntType.bound, IntType.signed, IntType.bits]⟩
  refine ⟨hn, _, writeScalar_decimal hn, fun h => ?_⟩
  have := (decodesTo_decimal hn (by simp [Terminated]) (At.start _)).mp h
  norm_num at this

end RoundTrip

end TensorDE.Kdl
