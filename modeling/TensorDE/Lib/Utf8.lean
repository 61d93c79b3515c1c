import Mathlib.Tactic
import Mathlib.Data.List.DropRight

namespace TensorDE.Utf8

open List

abbrev Str := List Char

instance : LawfulBEq Str := inferInstance

def encode (text : Str) : List UInt8 := text.flatMap String.utf8EncodeChar

def size (text : Str) : Nat := (encode text).length

/-- `&text[index..]`; there is none off a character boundary. -/
def suffixAt : Str → Nat → Option Str
  | text, 0 => some text
  | [], _ + 1 => none
  | c :: text, index + 1 => if c.utf8Size ≤ index + 1 then suffixAt text (index + 1 - c.utf8Size) else none

@[simp] theorem encode_nil : encode [] = [] := rfl

variable (c : Char) (text : Str)

@[simp] theorem encode_cons : encode (c :: text) = String.utf8EncodeChar c ++ encode text := by
  simp [encode]

@[simp] theorem encode_append (a b : Str) : encode (a ++ b) = encode a ++ encode b := by
  simp [encode]

@[simp] theorem size_nil : size [] = 0 := rfl

@[simp] theorem size_cons : size (c :: text) = c.utf8Size + size text := by
  simp [size]

@[simp] theorem size_append (a b : Str) : size (a ++ b) = size a + size b := by
  simp [size]

variable {text : Str}

theorem size_eq_zero : size text = 0 ↔ text = [] := by
  cases text with
  | nil => simp
  | cons c text => grind [c.utf8Size_pos, size_cons]

@[simp] theorem suffixAt_zero (text : Str) : suffixAt text 0 = some text := by
  cases text <;> rfl

theorem suffixAt_append (pre text : Str) : suffixAt (pre ++ text) (size pre) = some text := by
  induction pre with
  | nil => simp
  | cons c pre ih =>
    have hpos := c.utf8Size_pos
    obtain ⟨n, hn⟩ : ∃ n, c.utf8Size + size pre = n + 1 := ⟨c.utf8Size + size pre - 1, by omega⟩
    grind [size_cons, suffixAt]

variable {rest : Str} {index : Nat}

theorem suffixAt_eq_some : suffixAt text index = some rest ↔ ∃ pre, text = pre ++ rest ∧ size pre = index := by
  refine ⟨fun h => ?_, fun ⟨pre, htext, hsize⟩ => by rw [htext, ← hsize, suffixAt_append]⟩
  induction text generalizing index with
  | nil =>
    cases index with
    | zero => exact ⟨[], by simpa using h, rfl⟩
    | succ index => cases h
  | cons c text ih =>
    cases index with
    | zero => exact ⟨[], by simpa using h, rfl⟩
    | succ index => grind [suffixAt, size_cons]

theorem suffixAt_lt (h : suffixAt text index = some rest) : index + size rest = size text := by
  grind [suffixAt_eq_some, size_append]

theorem suffixAt_add (h : suffixAt text index = some rest) (more : Nat) :
    suffixAt text (index + more) = suffixAt rest more := by
  obtain ⟨pre, rfl, rfl⟩ := (suffixAt_eq_some).mp h
  induction pre with
  | nil => simp
  | cons c pre ih =>
    have hpos := c.utf8Size_pos
    obtain ⟨n, hn⟩ : ∃ n, c.utf8Size + size pre + more = n + 1 := ⟨c.utf8Size + size pre + more - 1, by omega⟩
    rw [size_cons, cons_append, hn, suffixAt, if_pos (by omega), ← hn,
      show c.utf8Size + size pre + more - c.utf8Size = size pre + more by omega]
    exact ih (suffixAt_append pre rest)

variable {c : Char}

theorem encodeChar_ascii (h : c.toNat < 128) : String.utf8EncodeChar c = [UInt8.ofNat c.toNat] := by
  rw [String.utf8EncodeChar, if_pos (by exact Nat.le_of_lt_succ h)]
  rfl

theorem utf8Size_ascii (h : c.toNat < 128) : c.utf8Size = 1 := by
  have hlen := String.length_utf8EncodeChar c
  rw [encodeChar_ascii h] at hlen
  exact hlen.symm

variable {b : UInt8}

theorem le_of_mem_encodeChar (h : 128 ≤ c.toNat) (hb : b ∈ String.utf8EncodeChar c) : 128 ≤ b.toNat := by
  have hv : ¬ c.val.toNat ≤ 127 := by
    have : c.toNat = c.val.toNat := rfl
    omega
  rw [String.utf8EncodeChar, if_neg hv] at hb
  split at hb <;> [skip; split at hb] <;>
    simp only [mem_cons, not_mem_nil, or_false] at hb <;>
    obtain rfl | rfl | rfl | rfl := hb <;> simp only [UInt8.toNat_ofNat'] <;> omega

theorem split_at_ascii (h : (encode text)[index]? = some b) (hb : b.toNat < 128) :
    ∃ pre c post, text = pre ++ c :: post ∧ size pre = index ∧ c.toNat = b.toNat := by
  induction text generalizing index with
  | nil => simp at h
  | cons c text ih =>
    rw [encode_cons] at h
    by_cases hlt : index < c.utf8Size
    · rw [getElem?_append_left (by simpa using hlt)] at h
      by_cases hc : c.toNat < 128
      · rw [encodeChar_ascii hc] at h
        cases index with
        | zero =>
          refine ⟨[], c, text, rfl, rfl, ?_⟩
          grind [UInt8.toNat_ofNat']
        | succ index => simp at h
      grind [le_of_mem_encodeChar]
    grind [String.length_utf8EncodeChar, size_cons]

theorem split_ascii {count : Nat} (hcount : count ≤ size text) (h : ∀ b ∈ (encode text).take count, b.toNat < 128) :
    ∃ pre post, text = pre ++ post ∧ size pre = count := by
  induction count generalizing text with
  | zero => exact ⟨[], text, rfl, rfl⟩
  | succ count ih =>
    cases text with
    | nil => simp at hcount
    | cons c text =>
      have hc : c.toNat < 128 := by
        by_contra hc
        obtain ⟨b, bytes, hb⟩ := exists_cons_of_ne_nil (String.utf8EncodeChar_ne_nil (c := c))
        have hmem : b ∈ String.utf8EncodeChar c := by simp [hb]
        have hle := le_of_mem_encodeChar (Nat.le_of_not_lt hc) hmem
        have hlt := h b (by rw [encode_cons, hb]; simp)
        omega
      have hsize := utf8Size_ascii hc
      rw [size_cons, hsize] at hcount
      grind [encodeChar_ascii, encode, size_cons]

/-- The bytes a second byte may be after a lead byte of three or four bytes. -/
def secondBytes (lead : UInt8) : UInt8 × UInt8 :=
  if lead = 0xE0 then (0xA0, 0xBF)
  else if lead = 0xED then (0x80, 0x9F)
  else if lead = 0xF0 then (0x90, 0xBF)
  else if lead = 0xF4 then (0x80, 0x8F)
  else (0x80, 0xBF)

/-- How many bytes at the start of bytes that begin with no character stand for one replacement:
the lead byte with the continuation bytes it accepts. -/
def malformed : List UInt8 → Nat
  | lead :: second :: third :: _ =>
    if lead < 0xE0 ∨ 0xF4 < lead then 1
    else if second < (secondBytes lead).1 ∨ (secondBytes lead).2 < second then 1
    else if lead < 0xF0 ∨ third < 0x80 ∨ 0xBF < third then 2
    else 3
  | [lead, second] =>
    if lead < 0xE0 ∨ 0xF4 < lead then 1
    else if second < (secondBytes lead).1 ∨ (secondBytes lead).2 < second then 1
    else 2
  | _ => 1

def replacement : Char := Char.ofNat 0xFFFD

def lossyFrom : Nat → List UInt8 → Str
  | 0, _ => []
  | _ + 1, [] => []
  | fuel + 1, b :: bytes =>
    match (b :: bytes).toByteArray.utf8DecodeChar? 0 with
    | some c => c :: lossyFrom fuel ((b :: bytes).drop c.utf8Size)
    | none => replacement :: lossyFrom fuel ((b :: bytes).drop (malformed (b :: bytes)))

/-- `OsStr::to_string_lossy`. -/
def lossy (bytes : List UInt8) : Str := lossyFrom bytes.length bytes

theorem lossyFrom_encode (text : Str) (fuel : Nat) (h : text.length ≤ fuel) : lossyFrom fuel (encode text) = text := by
  induction text generalizing fuel with
  | nil => cases fuel <;> rfl
  | cons c text ih =>
    cases fuel with
    | zero => simp at h
    | succ fuel =>
      have hdecode : (encode (c :: text)).toByteArray.utf8DecodeChar? 0 = some c := by
        rw [encode_cons, toByteArray_append]
        exact ByteArray.utf8DecodeChar?_utf8EncodeChar_append
      have hdrop : (encode (c :: text)).drop c.utf8Size = encode text := by
        rw [encode_cons, ← String.length_utf8EncodeChar, drop_left]
      cases hbytes : encode (c :: text) with
      | nil => simp_all
      | cons b bytes => grind [lossyFrom]

theorem length_le_size (text : Str) : text.length ≤ size text := by
  induction text with
  | nil => simp
  | cons c text ih => grind [c.utf8Size_pos, size_cons]

@[simp] theorem lossy_encode (text : Str) : lossy (encode text) = text :=
  lossyFrom_encode text _ (length_le_size text)

theorem encode_injective : Function.Injective encode :=
  Function.LeftInverse.injective lossy_encode

theorem ascii_mem_lossyFrom (hc : c.toNat < 128) (fuel : Nat) (bytes : List UInt8)
    (h : c ∈ lossyFrom fuel bytes) : UInt8.ofNat c.toNat ∈ bytes := by
  induction fuel generalizing bytes with
  | zero => simp [lossyFrom] at h
  | succ fuel ih =>
    cases bytes with
    | nil => simp [lossyFrom] at h
    | cons b bytes =>
      rw [lossyFrom] at h
      split at h
      · rename_i d hd
        obtain rfl | hrest := mem_cons.mp h
        · obtain ⟨rest, hrest⟩ := ByteArray.exists_of_utf8DecodeChar?_eq_some hd
          have hbytes : b :: bytes = String.utf8EncodeChar c ++ rest.data.toList := by
            simpa using congrArg (fun bytes => bytes.data.toList) hrest
          rw [hbytes, encodeChar_ascii hc]
          simp
        · exact mem_of_mem_drop (ih _ hrest)
      · obtain rfl | hrest := mem_cons.mp h
        · exact absurd hc (by decide)
        · exact mem_of_mem_drop (ih _ hrest)

theorem ascii_mem_encode (hb : b.toNat < 128) (h : b ∈ encode text) : ∃ c ∈ text, c.toNat = b.toNat := by
  obtain ⟨index, hindex⟩ := mem_iff_getElem?.mp h
  grind [split_at_ascii]

theorem ascii_mem_encode_lossy (hb : b.toNat < 128) {bytes : List UInt8}
    (hsub : text ⊆ lossy bytes) (h : b ∈ encode text) : b ∈ bytes := by
  obtain ⟨c, hmem, hc⟩ := ascii_mem_encode hb h
  have := ascii_mem_lossyFrom (hc ▸ hb) _ _ (hsub hmem)
  rwa [hc, UInt8.ofNat_toNat] at this

section Trim

/-- `char::is_whitespace`. -/
def isWhitespace (c : Char) : Bool :=
  (0x9 ≤ c.toNat ∧ c.toNat ≤ 0xD) ∨ c.toNat = 0x20 ∨ c.toNat = 0x85 ∨ c.toNat = 0xA0 ∨ c.toNat = 0x1680 ∨
    (0x2000 ≤ c.toNat ∧ c.toNat ≤ 0x200A) ∨ c.toNat = 0x2028 ∨ c.toNat = 0x2029 ∨ c.toNat = 0x202F ∨
    c.toNat = 0x205F ∨ c.toNat = 0x3000

/-- `str::trim`. -/
def trim (text : Str) : Str := (text.dropWhile isWhitespace).rdropWhile isWhitespace

theorem trim_subset (text : Str) : trim text ⊆ text := by
  intro c hc
  exact (dropWhile_suffix _).subset (( rdropWhile_prefix _ _).subset hc)

/-- Nothing is cut off a text that neither begins nor ends with white space. -/
theorem trim_eq_self_iff {text : Str} : trim text = text ↔
    (∀ c, text.head? = some c → ¬isWhitespace c) ∧ ∀ c, text.getLast? = some c → ¬isWhitespace c := by
  have hfront : text.dropWhile isWhitespace = text ↔ ∀ c, text.head? = some c → ¬isWhitespace c := by
    cases text with
    | nil => simp
    | cons c rest => simp_all
  have hback : text.rdropWhile isWhitespace = text ↔ ∀ c, text.getLast? = some c → ¬isWhitespace c := by
    rw [rdropWhile_eq_self_iff]
    refine ⟨fun h c hc => ?_, fun h hne => h _ (getLast?_eq_getLast_of_ne_nil hne)⟩
    have hne : text ≠ [] := by
      rintro rfl
      cases hc
    rw [getLast?_eq_getLast_of_ne_nil hne] at hc
    exact Option.some.inj hc ▸ h hne
  refine ⟨fun h => ?_, fun h => by rw [trim, hfront.mpr h.1, hback.mpr h.2]⟩
  have hlen : text.length ≤ (text.dropWhile isWhitespace).length := by
    rw [← congrArg List.length h]
    exact ( rdropWhile_prefix _ _).length_le
  have hdrop : text.dropWhile isWhitespace = text := (dropWhile_suffix _).eq_of_length_le hlen
  grind [trim]

end Trim

end TensorDE.Utf8
