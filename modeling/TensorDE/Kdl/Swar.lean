import TensorDE.Lib.Lanes

namespace TensorDE.Kdl

open Codec Lanes

def repeatByte (byte : UInt8) : UInt64 := 0x0101010101010101 * byte.toUInt64

/-- Up to eight bytes, little-endian; missing high bytes are zero. -/
def loadU64Unaligned (bytes : Bytes) : UInt64 := UInt64.ofNat (ofLe (bytes.take 8))

variable (chunk : UInt64)

def hasByte (byte : UInt8) : UInt64 :=
  let x := chunk ^^^ repeatByte byte
  (x - repeatByte 0x01) &&& ~~~x &&& repeatByte 0x80

def hasAsciiHorizontalWs : UInt64 := hasByte chunk 32 ||| hasByte chunk 9

def firstLane (mask : UInt64) : Nat := trailingZeros mask >>> 3

def allWs : UInt64 := 0x8080808080808080

def isBlank (b : UInt8) : Bool := b = 32 || b = 9

def skipBlanks (input : Bytes) (stop : Nat) : Nat → Nat → Nat
  | 0, index => index
  | fuel + 1, index =>
    if index < stop ∧ isBlank (input.getD index 0) then skipBlanks input stop fuel (index + 1) else index

def skipWords (input : Bytes) (stop : Nat) : Nat → Nat → Nat
  | 0, index => index
  | fuel + 1, index =>
    if index < stop ∧ index + 8 ≤ input.length then
      let ws := hasAsciiHorizontalWs (loadU64Unaligned ((input.drop index).take 8))
      if index + 8 ≤ stop ∧ ws = allWs then skipWords input stop fuel (index + 8)
      else
        let nonWs := allWs &&& ~~~ws
        if nonWs ≠ 0 then min (index + firstLane nonWs) stop
        else if stop < index + 8 then stop -- all blank, but the word straddles the end
        else skipWords input stop fuel (index + 8)
    else skipBlanks input stop (stop - index) index

variable (input : Bytes)

def skipAsciiHorizontalWs (index stop : Nat) : Nat :=
  let stop := min stop input.length
  skipWords input stop (stop - index + 1) index

/-- The two scanners for the end of a string differ in the bytes they stop at: `hit` marks their
lanes in a word and `isHit` tests one byte. -/
def findByte (hit : UInt64 → UInt64) (isHit : UInt8 → Bool) (input : Bytes) (stop : Nat) : Nat → Nat → Nat
  | 0, _ => stop
  | fuel + 1, index =>
    if index < stop ∧ index + 8 ≤ input.length then
      let mask := hit (loadU64Unaligned ((input.drop index).take 8))
      if mask ≠ 0 then min (index + firstLane mask) stop
      else if stop < index + 8 then findTail isHit input stop (stop - index) index
      else findByte hit isHit input stop fuel (index + 8)
    else findTail isHit input stop (stop - index) index
where
  findTail (isHit : UInt8 → Bool) (input : Bytes) (stop : Nat) : Nat → Nat → Nat
  | 0, _ => stop
  | fuel + 1, index =>
    if index < stop then
      if isHit (input.getD index 0) then index else findTail isHit input stop fuel (index + 1)
    else stop

def findQuoteOrEscape (index stop : Nat) : Nat :=
  let stop := min stop input.length
  findByte (fun chunk => hasByte chunk 34 ||| hasByte chunk 92) (fun b => b = 34 || b = 92) input stop
    (stop - index + 1) index

def findQuote (index stop : Nat) : Nat :=
  let stop := min stop input.length
  findByte (hasByte · 34) (· = 34) input stop (stop - index + 1) index

section Laws

/-- How far the blanks of a word reach. After a lane flagged as a space an exclamation mark is taken
for one too, and after a tab a backspace: the borrow of the lane below hides the difference of one. -/
def blankLanes : Option UInt8 → Bytes → Nat
  | _, [] => 0
  | prev, b :: bytes =>
    if b = 32 ∨ b = 33 ∧ prev = some 32 then 1 + blankLanes (some 32) bytes
    else if b = 9 ∨ b = 8 ∧ prev = some 9 then 1 + blankLanes (some 9) bytes
    else 0

theorem repeatByte_toNat (byte : UInt8) : (repeatByte byte).toNat = ofLe (List.replicate 8 byte) := by
  revert byte
  exact Bytes.forall_byte (by decide +kernel)

variable {word : Bytes}

theorem loadU64Unaligned_toNat (h : word.length = 8) : (loadU64Unaligned word).toNat = ofLe word := by
  grind [ofLe_lt, loadU64Unaligned, UInt64.toNat_ofNat']

theorem hasByte_toNat (h : word.length = 8) (byte : UInt8) :
    (hasByte (loadU64Unaligned word) byte).toNat = ofLe (highBits (borrows false (word.map (· ^^^ byte)))) := by
  have hx : (loadU64Unaligned word ^^^ repeatByte byte).toNat = ofLe (word.map (· ^^^ byte)) := by
    rw [UInt64.toNat_xor, loadU64Unaligned_toNat h, repeatByte_toNat, ofLe_xor (by simp [h])]
    rw [← h, zipWith_replicate]
  exact zeroLanes_eq (by simp [h]) hx

theorem hasByte_or_toNat (h : word.length = 8) (byte byte' : UInt8) :
    (hasByte (loadU64Unaligned word) byte ||| hasByte (loadU64Unaligned word) byte').toNat =
      ofLe (highBits (List.zipWith (· || ·) (borrows false (word.map (· ^^^ byte)))
        (borrows false (word.map (· ^^^ byte'))))) := by
  rw [UInt64.toNat_or, hasByte_toNat h, hasByte_toNat h, highBits_or (by simp)]

def blankFlags (space tab : Bool) (word : Bytes) : List Bool :=
  List.zipWith (· || ·) (borrows space (word.map (· ^^^ 32))) (borrows tab (word.map (· ^^^ 9)))

theorem length_blankFlags (space tab : Bool) (word : Bytes) : (blankFlags space tab word).length = word.length := by
  simp [blankFlags]

variable (b : UInt8) (borrow : Bool)

theorem flag_spec :
    (((b ^^^ 32 = 0 || b ^^^ 32 = 1 && borrow : Bool) = true) ↔ (b = 32 ∨ b = 33 ∧ borrow = true)) ∧
      (((b ^^^ 9 = 0 || b ^^^ 9 = 1 && borrow : Bool) = true) ↔ (b = 9 ∨ b = 8 ∧ borrow = true)) := by
  revert b
  cases borrow <;> exact Bytes.forall_byte (by decide +kernel)

theorem space_flag :
    ((b ^^^ 32 = 0 || b ^^^ 32 = 1 && borrow : Bool) = true) ↔ (b = 32 ∨ b = 33 ∧ borrow = true) :=
  (flag_spec b borrow).1

theorem tab_flag : ((b ^^^ 9 = 0 || b ^^^ 9 = 1 && borrow : Bool) = true) ↔ (b = 9 ∨ b = 8 ∧ borrow = true) :=
  (flag_spec b borrow).2

theorem blankFlags_cons (space tab : Bool) (b : UInt8) (word : Bytes) : blankFlags space tab (b :: word) =
      (decide (b = 32 ∨ b = 33 ∧ space = true) || decide (b = 9 ∨ b = 8 ∧ tab = true)) ::
        blankFlags (decide (b = 32 ∨ b = 33 ∧ space = true)) (decide (b = 9 ∨ b = 8 ∧ tab = true)) word := by
  have hspace : (b ^^^ 32 = 0 || b ^^^ 32 = 1 && space : Bool) = decide (b = 32 ∨ b = 33 ∧ space = true) := by
    rw [Bool.eq_iff_iff, space_flag, decide_eq_true_iff]
  have htab : (b ^^^ 9 = 0 || b ^^^ 9 = 1 && tab : Bool) = decide (b = 9 ∨ b = 8 ∧ tab = true) := by
    rw [Bool.eq_iff_iff, tab_flag, decide_eq_true_iff]
  grind [blankFlags, borrows, List.zipWith_cons_cons]

theorem blankLanes_eq (space tab : Bool) (prev : Option UInt8) (hspace : space = true ↔ prev = some 32)
    (htab : tab = true ↔ prev = some 9) (word : Bytes) :
    ((blankFlags space tab word).map (! ·)).findIdx id = blankLanes prev word := by
  induction word generalizing space tab prev with
  | nil => rfl
  | cons b word ih =>
    rw [blankFlags_cons, List.map_cons, List.findIdx_cons, blankLanes]
    simp only [← hspace, ← htab]
    by_cases hs : b = 32 ∨ b = 33 ∧ space = true
    · have ht : ¬ (b = 9 ∨ b = 8 ∧ tab = true) := by
        obtain rfl | ⟨rfl, -⟩ := hs <;> simp
      simp only [hs, ht, decide_true, decide_false, Bool.or_false, Bool.not_true, id_eq, if_true, cond_false]
      rw [ih _ _ (some 32) (by simp) (by simp), Nat.add_comm]
    · by_cases ht : b = 9 ∨ b = 8 ∧ tab = true
      · simp only [hs, ht, decide_true, decide_false, Bool.false_or, Bool.not_true, id_eq, if_true, if_false, cond_false]
        rw [ih _ _ (some 9) (by simp) (by simp), Nat.add_comm]
      · simp [hs, ht]

variable (prev : Option UInt8)

theorem blankLanes_le (word : Bytes) : blankLanes prev word ≤ word.length := by
  rw [← blankLanes_eq (prev = some 32) (prev = some 9) prev (by simp) (by simp) word]
  grind [length_blankFlags]

theorem blankLanes_append_zeros (bytes : Bytes) (n : Nat) :
    blankLanes prev (bytes ++ List.replicate n 0) = blankLanes prev bytes := by
  induction bytes generalizing prev with
  | nil => cases n <;> simp [blankLanes, List.replicate_succ]
  | cons b bytes ih => simp only [List.cons_append, blankLanes, ih]

section

variable (h : word.length = 8)
include h

theorem hasAsciiHorizontalWs_toNat :
    (hasAsciiHorizontalWs (loadU64Unaligned word)).toNat = ofLe (highBits (blankFlags false false word)) :=
  hasByte_or_toNat h 32 9

theorem nonWs_toNat : (allWs &&& ~~~hasAsciiHorizontalWs (loadU64Unaligned word)).toNat =
      ofLe (highBits ((blankFlags false false word).map (! ·))) :=
  highBits_not (by rw [length_blankFlags, h]) (hasAsciiHorizontalWs_toNat h)

theorem nonWs_ne_zero :
    (allWs &&& ~~~hasAsciiHorizontalWs (loadU64Unaligned word)) ≠ 0 ↔ blankLanes none word < 8 := by
  have hlanes := blankLanes_eq false false none (by simp) (by simp) word
  rw [Ne, ← UInt64.toNat_inj, nonWs_toNat h, UInt64.toNat_zero, ofLe_highBits_eq_zero, not_not, ← hlanes]
  grind [length_blankFlags]

theorem firstLane_nonWs (hlt : blankLanes none word < 8) :
    firstLane (allWs &&& ~~~hasAsciiHorizontalWs (loadU64Unaligned word)) = blankLanes none word := by
  grind [blankLanes_eq, length_blankFlags, firstLane, trailingZeros_highBits, nonWs_toNat]

end

theorem skipWords_word {input : Bytes} {stop fuel index : Nat} (hindex : index < stop)
    (hload : index + 8 ≤ input.length) : skipWords input stop (fuel + 1) index =
      if blankLanes none ((input.drop index).take 8) < 8 then
        min (index + blankLanes none ((input.drop index).take 8)) stop
      else if stop < index + 8 then stop else skipWords input stop fuel (index + 8) := by
  have hlen : ((input.drop index).take 8).length = 8 := by simp; omega
  have hnonWs := nonWs_ne_zero hlen
  have hlane := firstLane_nonWs hlen
  rw [skipWords, if_pos ⟨hindex, hload⟩]
  generalize (input.drop index).take 8 = word at hlen hnonWs hlane
  by_cases hlt : blankLanes none word < 8
  · have hws : hasAsciiHorizontalWs (loadU64Unaligned word) ≠ allWs := by
      intro hws
      rw [hws] at hnonWs
      exact hnonWs.mpr hlt (by decide)
    simp only [hws, and_false, if_false, if_pos (hnonWs.mpr hlt), hlane hlt, if_pos hlt]
  grind

theorem skipBlanks_eq (pre bytes post : Bytes) (fuel : Nat) (hfuel : bytes.length ≤ fuel) :
    skipBlanks (pre ++ bytes ++ post) (pre.length + bytes.length) fuel pre.length =
      pre.length + (bytes.takeWhile isBlank).length := by
  induction bytes generalizing pre fuel with
  | nil => cases fuel <;> simp [skipBlanks]
  | cons b bytes ih =>
    obtain ⟨fuel, rfl⟩ : ∃ n, fuel = n + 1 := ⟨fuel - 1, by simp at hfuel; omega⟩
    have hnext := ih (pre ++ [b]) fuel (by simpa using hfuel)
    grind [skipBlanks, List.takeWhile_cons]

/-- The blanks at the head of the bytes, word by word; `last` deals with a word of fewer than eight. -/
def blankRun (last : Bytes → Nat) (bytes : Bytes) : Nat :=
  if 8 ≤ bytes.length then
    if blankLanes none (bytes.take 8) < 8 then blankLanes none (bytes.take 8) else 8 + blankRun last (bytes.drop 8)
  else last bytes
termination_by bytes.length
decreasing_by simp; omega

variable {last : Bytes → Nat} {bytes : Bytes}

theorem blankRun_word (h : 8 ≤ bytes.length) : blankRun last bytes =
      if blankLanes none (bytes.take 8) < 8 then blankLanes none (bytes.take 8)
      else 8 + blankRun last (bytes.drop 8) := by
  rw [blankRun, if_pos h]

theorem blankRun_last (h : bytes.length < 8) : blankRun last bytes = last bytes := by
  rw [blankRun, if_neg (by omega)]

def scalarBlanks (bytes : Bytes) : Nat := (bytes.takeWhile isBlank).length

/-- The last word is scanned byte by byte, or as a whole when the padding fills it up. -/
def lastWord (padding : Nat) : Bytes → Nat := if padding = 0 then scalarBlanks else blankLanes none

theorem lastWord_nil (padding : Nat) : lastWord padding [] = 0 := by
  unfold lastWord
  split <;> rfl

theorem take_word {pre bytes post : Bytes} : ((pre ++ bytes ++ post).drop pre.length).take 8 = (bytes ++ post).take 8 := by
  simp

variable {padding : Nat}

theorem skipWords_last (hpadding : padding = 0 ∨ 8 ≤ padding) (bytes pre : Bytes) (fuel : Nat)
    (hlen : bytes.length < 8) :
    skipWords (pre ++ bytes ++ List.replicate padding 0) (pre.length + bytes.length) (fuel + 1) pre.length =
      pre.length + lastWord padding bytes := by
  obtain rfl | hne := eq_or_ne bytes []
  · simp [skipWords, skipBlanks, lastWord_nil]
  have hpos : 0 < bytes.length := List.length_pos_iff.mpr hne
  obtain rfl | hpadding := hpadding
  · have hload : ¬ (pre.length < pre.length + bytes.length ∧
        pre.length + 8 ≤ (pre ++ bytes ++ List.replicate 0 0).length) := by simp; omega
    rw [skipWords, if_neg hload, skipBlanks_eq pre bytes _ _ (by omega)]
    rfl
  · have hword : (bytes ++ List.replicate padding 0).take 8 = bytes ++ List.replicate (8 - bytes.length) 0 := by
      rw [List.take_append, List.take_of_length_le (by omega), List.take_replicate, Nat.min_eq_left (by omega)]
    have hlanes : blankLanes none ((bytes ++ List.replicate padding 0).take 8) = blankLanes none bytes := by
      rw [hword, blankLanes_append_zeros]
    have hle := blankLanes_le none bytes
    have hlast : lastWord padding bytes = blankLanes none bytes := by
      rw [lastWord, if_neg (by omega)]
    rw [skipWords_word (by omega) (by simp; omega), take_word, hlanes, if_pos (by omega), hlast]
    omega

theorem skipWords_eq (hpadding : padding = 0 ∨ 8 ≤ padding) (bytes pre : Bytes) (fuel : Nat)
    (hfuel : bytes.length < fuel) :
    skipWords (pre ++ bytes ++ List.replicate padding 0) (pre.length + bytes.length) fuel pre.length =
      pre.length + blankRun (lastWord padding) bytes := by
  induction fuel generalizing bytes pre with
  | zero => omega
  | succ fuel ih =>
    by_cases hlen : 8 ≤ bytes.length
    · have hword : (bytes ++ List.replicate padding 0).take 8 = bytes.take 8 := List.take_append_of_le_length hlen
      have hnext := ih (bytes.drop 8) (pre ++ bytes.take 8) (by simp; omega)
      have hshift : pre ++ bytes.take 8 ++ bytes.drop 8 = pre ++ bytes := by simp
      have htake : (pre ++ bytes.take 8).length = pre.length + 8 := by simp; omega
      have hstop : pre.length + 8 + (bytes.drop 8).length = pre.length + bytes.length := by simp; omega
      rw [hshift, htake, hstop] at hnext
      rw [skipWords_word (by omega) (by simp; omega), take_word, hword, blankRun_word hlen, hnext]
      by_cases hlanes : blankLanes none (bytes.take 8) < 8
      · rw [if_pos hlanes, if_pos hlanes]
        omega
      · rw [if_neg hlanes, if_neg hlanes, if_neg (by omega)]
        omega
    · rw [skipWords_last hpadding bytes pre fuel (by omega), blankRun_last (by omega)]

variable {index : Nat}

theorem skipAsciiHorizontalWs_eq (hpadding : padding = 0 ∨ 8 ≤ padding) (hindex : index ≤ bytes.length) :
    skipAsciiHorizontalWs (bytes ++ List.replicate padding 0) index bytes.length =
      index + blankRun (lastWord padding) (bytes.drop index) := by
  have hmin : min bytes.length (bytes ++ List.replicate padding 0).length = bytes.length := by simp
  have htake : (bytes.take index).length = index := by simp [hindex]
  grind [skipWords_eq, List.take_append_drop, skipAsciiHorizontalWs]

theorem blankLanes_ascii (bytes : Bytes) : ∀ b ∈ bytes.take (blankLanes prev bytes), b.toNat < 128 := by
  induction bytes generalizing prev with
  | nil => simp
  | cons first bytes ih =>
    intro b hb
    rw [blankLanes] at hb
    split at hb
    · rename_i hspace
      rw [Nat.add_comm, List.take_succ_cons, List.mem_cons] at hb
      obtain rfl | hb := hb
      · obtain rfl | ⟨rfl, -⟩ := hspace <;> decide
      · exact ih _ b hb
    · split at hb
      · rename_i htab
        rw [Nat.add_comm, List.take_succ_cons, List.mem_cons] at hb
        obtain rfl | hb := hb
        · obtain rfl | ⟨rfl, -⟩ := htab <;> decide
        · exact ih _ b hb
      · simp at hb

theorem lastWord_ascii (padding : Nat) (bytes : Bytes) :
    lastWord padding bytes ≤ bytes.length ∧ ∀ b ∈ bytes.take (lastWord padding bytes), b.toNat < 128 := by
  unfold lastWord
  split
  · have htake : bytes.take (bytes.takeWhile isBlank).length = bytes.takeWhile isBlank :=
      List.prefix_iff_eq_take.mp (List.takeWhile_prefix _) |>.symm
    refine ⟨(List.takeWhile_sublist _).length_le, fun b hb => ?_⟩
    rw [scalarBlanks, htake] at hb
    have hblank := List.all_eq_true.mp List.all_takeWhile b hb
    simp only [isBlank, Bool.or_eq_true, decide_eq_true_eq] at hblank
    obtain rfl | rfl := hblank <;> decide
  · exact ⟨blankLanes_le none bytes, blankLanes_ascii none bytes⟩

/-- The scanner stays inside the bytes and skips ASCII only, so it stops on a character boundary. -/
theorem blankRun_ascii (padding : Nat) (bytes : Bytes) : blankRun (lastWord padding) bytes ≤ bytes.length ∧
      ∀ b ∈ bytes.take (blankRun (lastWord padding) bytes), b.toNat < 128 := by
  induction bytes using blankRun.induct with
  | case1 bytes hlen hlanes => grind [blankRun_word, blankLanes_ascii]
  | case2 bytes hlen hlanes ih =>
    rw [blankRun_word hlen, if_neg hlanes]
    refine ⟨by have := ih.1; rw [List.length_drop] at this; omega, fun b hb => ?_⟩
    rw [List.take_add, List.mem_append] at hb
    grind [blankLanes_ascii]
  | case3 bytes hlen =>
    rw [blankRun_last (by omega)]
    exact lastWord_ascii padding bytes

/-- `hit` marks lanes of a word, the first of them being the first byte that is a hit. -/
structure Marks (hit : UInt64 → UInt64) (isHit : UInt8 → Bool) : Prop where
  zero : isHit 0 = false
  mask : ∀ word : Bytes, word.length = 8 → ∃ flags : List Bool, flags.length = 8 ∧
    (hit (loadU64Unaligned word)).toNat = ofLe (highBits flags) ∧ flags.findIdx id = word.findIdx isHit

variable {hit : UInt64 → UInt64} {isHit : UInt8 → Bool}

theorem Marks.ne_zero (h : Marks hit isHit)
    (hlen : word.length = 8) : hit (loadU64Unaligned word) ≠ 0 ↔ word.findIdx isHit < 8 := by
  obtain ⟨flags, hflags, hmask, hidx⟩ := h.mask word hlen
  rw [Ne, ← UInt64.toNat_inj, hmask, UInt64.toNat_zero, ofLe_highBits_eq_zero, not_not, ← hidx, ← hflags,
    List.findIdx_lt_length]
  simp

theorem Marks.firstLane (h : Marks hit isHit) (hlen : word.length = 8) (hlt : word.findIdx isHit < 8) :
    Kdl.firstLane (hit (loadU64Unaligned word)) = word.findIdx isHit := by
  grind [h.mask, Kdl.firstLane, trailingZeros_highBits]

theorem findTail_eq (isHit : UInt8 → Bool) (pre bytes post : Bytes) (fuel : Nat) (hfuel : bytes.length ≤ fuel) :
    findByte.findTail isHit (pre ++ bytes ++ post) (pre.length + bytes.length) fuel pre.length =
      pre.length + bytes.findIdx isHit := by
  induction bytes generalizing pre fuel with
  | nil => cases fuel <;> simp [findByte.findTail]
  | cons b bytes ih =>
    obtain ⟨fuel, rfl⟩ : ∃ n, fuel = n + 1 := ⟨fuel - 1, by simp at hfuel; omega⟩
    have hnext := ih (pre ++ [b]) fuel (by simpa using hfuel)
    grind [findByte.findTail]

theorem findIdx_word (isHit : UInt8 → Bool) (bytes post : Bytes) (hlt : ((bytes ++ post).take 8).findIdx isHit < 8)
    (hlen : ((bytes ++ post).take 8).length = 8) :
    min (((bytes ++ post).take 8).findIdx isHit) bytes.length = bytes.findIdx isHit := by
  have hwhole : (bytes ++ post).findIdx isHit = ((bytes ++ post).take 8).findIdx isHit := by
    conv_lhs => rw [← List.take_append_drop 8 (bytes ++ post)]
    rw [List.findIdx_append, if_pos (by rw [hlen]; exact hlt)]
  have hle : bytes.findIdx isHit ≤ bytes.length := List.findIdx_le_length
  rw [← hwhole, List.findIdx_append]
  split <;> omega

theorem findByte_eq (h : Marks hit isHit) (bytes pre post : Bytes) (fuel : Nat) (hfuel : bytes.length < fuel) :
    findByte hit isHit (pre ++ bytes ++ post) (pre.length + bytes.length) fuel pre.length =
      pre.length + bytes.findIdx isHit := by
  induction fuel generalizing bytes pre with
  | zero => omega
  | succ fuel ih =>
    have htail := findTail_eq isHit pre bytes post (pre.length + bytes.length - pre.length) (by omega)
    rw [findByte]
    by_cases hload : pre.length < pre.length + bytes.length ∧ pre.length + 8 ≤ (pre ++ bytes ++ post).length
    · have hlen : ((bytes ++ post).take 8).length = 8 := by
        simp at hload ⊢
        omega
      rw [if_pos hload, take_word]
      by_cases hlt : ((bytes ++ post).take 8).findIdx isHit < 8
      · have hword := findIdx_word isHit bytes post hlt hlen
        simp only [if_pos ((h.ne_zero hlen).mpr hlt), h.firstLane hlen hlt]
        omega
      · simp only [if_neg (not_iff_not.mpr (h.ne_zero hlen) |>.mpr hlt)]
        by_cases hstop : pre.length + bytes.length < pre.length + 8
        · rw [if_pos hstop, htail]
        -- no hit in a whole word of the bytes
        have htake : (bytes ++ post).take 8 = bytes.take 8 := List.take_append_of_le_length (by omega)
        have height : (bytes.take 8).length = 8 := by simp; omega
        have hskip : bytes.findIdx isHit = 8 + (bytes.drop 8).findIdx isHit := by
          conv_lhs => rw [← List.take_append_drop 8 bytes]
          rw [List.findIdx_append, height, if_neg (htake ▸ hlt), Nat.add_comm]
        have hnext := ih (bytes.drop 8) (pre ++ bytes.take 8) (by simp; omega)
        rw [List.append_assoc pre, List.take_append_drop, List.length_append, height] at hnext
        have hsum : pre.length + 8 + (bytes.drop 8).length = pre.length + bytes.length := by simp; omega
        rw [if_neg hstop, ← hsum, hnext, hskip]
        omega
    · rw [if_neg hload, htail]

theorem borrows_false_cons (byte b : UInt8) (word : Bytes) : borrows false ((b :: word).map (· ^^^ byte)) =
      decide (b = byte) :: borrows (decide (b = byte)) (word.map (· ^^^ byte)) := by
  grind [UInt8.xor_eq_zero_iff, borrows]

theorem marks_quote : Marks (hasByte · 34) (· = 34) where
  zero := by decide
  mask word hlen := by
    refine ⟨_, by simp [hlen], hasByte_toNat hlen 34, ?_⟩
    clear hlen
    induction word with
    | nil => rfl
    | cons b word ih =>
      rw [borrows_false_cons, List.findIdx_cons, List.findIdx_cons]
      by_cases hb : b = 34
      · simp [hb]
      · simpa [hb] using ih

theorem marks_quoteOrEscape :
    Marks (fun chunk => hasByte chunk 34 ||| hasByte chunk 92) (fun b => b = 34 || b = 92) where
  zero := by decide
  mask word hlen := by
    refine ⟨_, by simp [hlen], hasByte_or_toNat hlen 34 92, ?_⟩
    clear hlen
    induction word with
    | nil => rfl
    | cons b word ih =>
      rw [borrows_false_cons, borrows_false_cons, List.zipWith_cons_cons, List.findIdx_cons, List.findIdx_cons]
      grind

theorem findByte_at (h : Marks hit isHit) (input : Bytes)
    {index stop : Nat} (hstop : stop ≤ input.length) (hindex : index ≤ stop) :
    findByte hit isHit input stop (stop - index + 1) index = index + ((input.take stop).drop index).findIdx isHit := by
  have hpre : ((input.take stop).take index).length = index := by simp; omega
  have hbytes : ((input.take stop).drop index).length = stop - index := by simp; omega
  have hrun := findByte_eq h ((input.take stop).drop index) ((input.take stop).take index) (input.drop stop)
    (stop - index + 1) (by omega)
  rwa [List.take_append_drop, List.take_append_drop, hpre, hbytes, Nat.add_sub_cancel' hindex] at hrun

theorem findByte_padded (h : Marks hit isHit) (padding : Nat) (hindex : index ≤ bytes.length) :
    findByte hit isHit (bytes ++ List.replicate padding 0) (min bytes.length (bytes ++ List.replicate padding 0).length)
      (min bytes.length (bytes ++ List.replicate padding 0).length - index + 1) index =
      index + (bytes.drop index).findIdx isHit := by
  have hmin : min bytes.length (bytes ++ List.replicate padding 0).length = bytes.length := by simp
  rw [hmin, findByte_at h _ (by simp) hindex, List.take_left]

theorem findQuoteOrEscape_eq (padding : Nat) (hindex : index ≤ bytes.length) :
    findQuoteOrEscape (bytes ++ List.replicate padding 0) index bytes.length =
      index + (bytes.drop index).findIdx fun b => b = 34 || b = 92 :=
  findByte_padded marks_quoteOrEscape padding hindex

theorem findQuote_eq (padding : Nat) (hindex : index ≤ bytes.length) :
    findQuote (bytes ++ List.replicate padding 0) index bytes.length = index + (bytes.drop index).findIdx (· = 34) :=
  findByte_padded marks_quote padding hindex

end Laws

end TensorDE.Kdl
