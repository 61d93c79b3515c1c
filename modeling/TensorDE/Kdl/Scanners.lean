import TensorDE.Kdl.Strings

set_option linter.dupNamespace false

namespace TensorDE.Kdl

open List

/-- The first position from `index` on and before `stop` with such a byte, or `stop`. -/
def firstAt (isHit : UInt8 → Bool) (input : Bytes) (index stop : Nat) : Nat :=
  if index ≤ stop then index + ((input.take stop).drop index).findIdx isHit else stop

section Blanks

variable {input blanks tail pre post word : Bytes} {index stop fuel : Nat} {c : UInt8}

/-- A byte that the mask for blanks takes for the blank before it. -/
def Merges (prev : Option UInt8) (c : UInt8) : Prop := c = 33 ∧ prev = some 32 ∨ c = 8 ∧ prev = some 9

theorem blankLanes_append (hblanks : ∀ b ∈ blanks, isBlank b = true) (prev : Option UInt8) (rest : Bytes) :
    blankLanes prev (blanks ++ rest) = blanks.length + blankLanes (blanks.getLast?.or prev) rest := by
  induction blanks generalizing prev with
  | nil => simp
  | cons b blanks ih => grind +splitImp +splitIndPred [mem_cons_self, isBlank, blankLanes]

theorem blankLanes_cons_eq_zero (hc : isBlank c = false) (prev : Option UInt8) (rest : Bytes) :
    blankLanes prev (c :: rest) = 0 ↔ ¬ Merges prev c := by
  grind +splitImp +splitIndPred [isBlank, blankLanes, Merges]

theorem le_skipBlanks (input : Bytes) (stop fuel index : Nat) : index ≤ skipBlanks input stop fuel index := by
  induction fuel generalizing index with
  | zero => exact le_rfl
  | succ fuel ih => grind [skipBlanks]

theorem le_skipWords (input : Bytes) (fuel : Nat) (hindex : index ≤ stop) :
    index ≤ skipWords input stop fuel index := by
  induction fuel generalizing index with
  | zero => exact le_rfl
  | succ fuel ih => grind +splitImp +splitIndPred [skipWords, le_skipBlanks]

/-- The blanks end at a byte that is taken for one of them: it is not the first of a word, and the word is read
as a whole. -/
def Masked (room : Nat) (blanks tail : Bytes) : Prop :=
  ∃ c, tail.head? = some c ∧ Merges blanks.getLast? c ∧ blanks.length % 8 ≠ 0 ∧ blanks.length / 8 * 8 + 8 ≤ room

theorem skipWords_iff (hblanks : ∀ b ∈ blanks, isBlank b = true) (htail : ∀ c, tail.head? = some c → isBlank c = false)
    (hfuel : (blanks ++ tail).length < fuel) :
    skipWords (pre ++ (blanks ++ tail) ++ post) (pre.length + (blanks ++ tail).length) fuel pre.length =
        pre.length + blanks.length ↔ ¬ Masked (blanks ++ tail ++ post).length blanks tail := by
  induction fuel generalizing pre blanks with
  | zero => omega
  | succ fuel ih =>
    have htake : (blanks ++ tail).takeWhile isBlank = blanks := by
      rw [takeWhile_append_of_pos hblanks]
      cases tail with
      | nil => simp
      | cons c tail => simp [htail c rfl]
    by_cases hload : pre.length < pre.length + (blanks ++ tail).length ∧
        pre.length + 8 ≤ (pre ++ (blanks ++ tail) ++ post).length
    · rw [skipWords_word hload.1 hload.2, take_word]
      by_cases hlong : 8 ≤ blanks.length
      · -- a word of blanks only
        have hall : ((blanks ++ tail) ++ post).take 8 = blanks.take 8 ++ [] := by
          rw [append_nil, append_assoc, take_append_of_le_length hlong]
        have height : (blanks.take 8).length = 8 := by simp; omega
        have hlanes := blankLanes_append (fun b (hb : b ∈ blanks.take 8) => hblanks b (mem_of_mem_take hb)) none []
        rw [hall, hlanes, height, if_neg (by omega), if_neg (by simp; omega)]
        have hnext := @ih (blanks.drop 8) (pre ++ blanks.take 8)
          (fun b hb => hblanks b (mem_of_mem_drop hb)) (by simp at hfuel ⊢; omega)
        have hshift : pre ++ blanks.take 8 ++ (blanks.drop 8 ++ tail) = pre ++ (blanks ++ tail) := by
          rw [append_assoc, ← append_assoc (blanks.take 8), take_append_drop]
        have hstart : (pre ++ blanks.take 8).length = pre.length + 8 := by rw [length_append, height]
        have hstop : pre.length + 8 + (blanks.drop 8 ++ tail).length = pre.length + (blanks ++ tail).length := by simp; omega
        have hcount : pre.length + 8 + (blanks.drop 8).length = pre.length + blanks.length := by simp; omega
        rw [hshift, hstart, hstop, hcount] at hnext
        rw [hnext, not_iff_not]
        refine exists_congr fun c => and_congr_right fun _ => ?_
        have hroom : (blanks.drop 8 ++ tail ++ post).length + 8 = (blanks ++ tail ++ post).length := by simp; omega
        have hlen : (blanks.drop 8).length = blanks.length - 8 := length_drop
        constructor
        · rintro ⟨hmerges, hmod, hle⟩
          have hne : blanks.drop 8 ≠ [] := fun hnil => hmod (by rw [hnil]; rfl)
          rw [getLast?_drop, if_neg (by rw [← drop_eq_nil_iff]; exact hne)] at hmerges
          exact ⟨hmerges, by omega, by omega⟩
        · rintro ⟨hmerges, hmod, hle⟩
          rw [getLast?_drop, if_neg (by omega)]
          exact ⟨hmerges, by omega, by omega⟩
      cases tail with
      | nil =>
        have hnone : ¬ Masked (blanks ++ [] ++ post).length blanks [] := by simp [Masked]
        have hshort : (blanks ++ ([] : Bytes)).length = blanks.length := by simp
        have hlanes := blankLanes_append hblanks none ((([] : Bytes) ++ post).take (8 - blanks.length))
        rw [iff_true_right hnone, hshort, append_assoc, take_append, take_of_length_le (by omega), hlanes]
        split_ifs <;> omega
      | cons c tail =>
        have hc := htail c rfl
        have hword : ((blanks ++ c :: tail) ++ post).take 8 = blanks ++ c :: (tail ++ post).take (7 - blanks.length) := by
          rw [append_assoc, take_append, take_of_length_le (by omega), cons_append,
            show 8 - blanks.length = (7 - blanks.length) + 1 by omega, take_succ_cons]
        have hlanes := blankLanes_append hblanks none (c :: (tail ++ post).take (7 - blanks.length))
        have hzero := blankLanes_cons_eq_zero hc (blanks.getLast?.or none) ((tail ++ post).take (7 - blanks.length))
        rw [Option.or_none] at hlanes hzero
        have hmasked : Masked (blanks ++ c :: tail ++ post).length blanks (c :: tail) ↔ Merges blanks.getLast? c := by
          constructor
          · rintro ⟨d, hd, hmerges, -⟩
            exact Option.some.inj hd ▸ hmerges
          intro hmerges
          refine ⟨c, rfl, hmerges, ?_, ?_⟩
          · intro hmod
            obtain rfl : blanks = [] := length_eq_zero_iff.mp (by omega)
            simp [Merges] at hmerges
          · have := hload.2
            simp only [length_append] at this ⊢
            omega
        rw [hword, hlanes, hmasked, ← hzero]
        have hbeyond : pre.length + 8 ≤ pre.length + (blanks ++ c :: tail).length → _ :=
          le_skipWords (pre ++ (blanks ++ c :: tail) ++ post) fuel
        simp only [length_append, length_cons] at hbeyond ⊢
        split_ifs <;> omega
    · have hrun := skipBlanks_eq pre (blanks ++ tail) post (pre.length + (blanks ++ tail).length - pre.length) (by omega)
      rw [skipWords, if_neg hload, hrun, htake, iff_true_left rfl]
      rintro ⟨c, hc, -, -, hroom⟩
      have hne : tail ≠ [] := fun hnil => by rw [hnil] at hc; cases hc
      have hpos := length_pos_iff.mpr hne
      simp only [length_append] at hload hroom
      omega

end Blanks

section Scans

variable (input : Bytes) (index stop : Nat)

/-- The blanks ahead of `index` and what is behind them, both before `stop`. -/
def blanksAt : Bytes := ((input.take stop).drop index).takeWhile isBlank

def behindBlanks : Bytes := ((input.take stop).drop index).dropWhile isBlank

/-- The scan for blanks ends where a scan of every byte does exactly when it starts before the end and the blanks do
not end at a byte that the mask takes for one of them. -/
theorem skipAsciiHorizontalWs_iff :
    skipAsciiHorizontalWs input index stop = firstAt (fun b => !isBlank b) input index (min stop input.length) ↔
      index ≤ min stop input.length ∧ ¬ Masked (input.length - index) (blanksAt input index (min stop input.length))
        (behindBlanks input index (min stop input.length)) := by
  rw [skipAsciiHorizontalWs, firstAt]
  generalize hlast : min stop input.length = last
  have hlen : last ≤ input.length := hlast ▸ Nat.min_le_right _ _
  by_cases hindex : index ≤ last
  · have hpre : ((input.take last).take index).length = index := by simp; omega
    have hseg : ((input.take last).drop index).length = last - index := by simp; omega
    have hjoin : blanksAt input index last ++ behindBlanks input index last = (input.take last).drop index :=
      takeWhile_append_dropWhile
    have hfirst : ((input.take last).drop index).findIdx (fun b => !isBlank b) = (blanksAt input index last).length := by
      rw [blanksAt, takeWhile_eq_take_findIdx_not, length_take, Nat.min_eq_left findIdx_le_length]
    have hroom : (blanksAt input index last ++ behindBlanks input index last ++ input.drop last).length =
        input.length - index := by
      rw [hjoin, length_append, hseg, length_drop]
      omega
    have hrun : skipWords ((input.take last).take index ++ _ ++ input.drop last) _ (last - index + 1) _ = _ ↔ _ :=
      skipWords_iff (fun b (hb : b ∈ blanksAt input index last) => mem_takeWhile_imp hb)
        (fun c (hc : (behindBlanks input index last).head? = some c) => by
          grind +splitImp +splitIndPred [head?_dropWhile_not, behindBlanks]) (by rw [hjoin, hseg]; omega)
    grind +splitImp +splitIndPred [take_append_drop]
  · have hstay : skipWords input last (last - index + 1) index = index := by
      rw [Nat.sub_eq_zero_of_le (by omega), skipWords, if_neg (by omega), Nat.sub_eq_zero_of_le (by omega), skipBlanks]
    grind

/-- A space hides the exclamation mark behind it. -/
theorem skipAsciiHorizontalWs_exclamation : skipAsciiHorizontalWs [32, 33, 97, 97, 97, 97, 97, 97] 0 8 ≠
      firstAt (fun b => !isBlank b) [32, 33, 97, 97, 97, 97, 97, 97] 0 8 := by
  decide +kernel

/-- The scan of two words at a time; `none` is a slice beyond the buffer. -/
def findDual (hit : UInt64 → UInt64) (input : Bytes) (stop : Nat) (scan : Nat → Nat) : Nat → Nat → Option Nat
  | 0, _ => none
  | fuel + 1, index =>
    if index + 16 ≤ stop then
      if index + 16 ≤ input.length then
        let h0 := hit (loadU64Unaligned ((input.drop index).take 8))
        let h1 := hit (loadU64Unaligned ((input.drop (index + 8)).take 8))
        if h0 ≠ 0 then some (index + firstLane h0)
        else if h1 ≠ 0 then some (index + 8 + firstLane h1)
        else findDual hit input stop scan fuel (index + 16)
      else none
    else some (scan index)

def findQuoteOrEscapeSse2 : Option Nat :=
  findDual (fun chunk => hasByte chunk 34 ||| hasByte chunk 92) input stop (findQuoteOrEscape input · stop)
    (stop - index + 1) index

def findQuoteSse2 : Option Nat :=
  findDual (hasByte · 34) input stop (findQuote input · stop) (stop - index + 1) index

/-- The first closer from `index` on; a closer has a quote at least. -/
def stringCloser (quoteCount hashes : Nat) : Option (Nat × Nat) :=
  if quoteCount = 0 then none
  else if min stop input.length < index then none
  else findStringCloser input (min stop input.length) quoteCount hashes (min stop input.length - index + 1) index

end Scans

section Quotes

variable {hit : UInt64 → UInt64} {isHit : UInt8 → Bool} {input : Bytes} {index stop quoteCount hashes : Nat}

theorem findByte_firstAt (h : Marks hit isHit) (hstop : stop ≤ input.length) :
    findByte hit isHit input stop (stop - index + 1) index = firstAt isHit input index stop := by
  rw [firstAt]
  split_ifs with hindex
  · exact findByte_at h input hstop hindex
  · rw [Nat.sub_eq_zero_of_le (by omega), findByte, if_neg (by omega), Nat.sub_eq_zero_of_le (by omega), findByte.findTail]

theorem segment_append {n : Nat} (hn : index + n ≤ stop) :
    (input.take stop).drop index = (input.drop index).take n ++ (input.take stop).drop (index + n) := by
  have htake : (input.drop index).take n = ((input.take stop).drop index).take n := by
    rw [drop_take, take_take, Nat.min_eq_left (by omega)]
  rw [htake, ← drop_drop, take_append_drop]

variable {fuel : Nat}

theorem findDual_firstAt (h : Marks hit isHit) (hstop : stop ≤ input.length) (hindex : index ≤ stop) {scan : Nat → Nat}
    (hscan : ∀ i, scan i = firstAt isHit input i stop) (hfuel : stop - index < fuel) :
    findDual hit input stop scan fuel index = some (firstAt isHit input index stop) := by
  induction fuel generalizing index with
  | zero => omega
  | succ fuel ih =>
    rw [findDual]
    split_ifs with hroom hload
    · have hlen : ∀ {i}, i + 8 ≤ stop → ((input.drop i).take 8).length = 8 := by
        simp
        omega
      have hfirst : ∀ {i}, i + 8 ≤ stop → firstAt isHit input i stop =
          if ((input.drop i).take 8).findIdx isHit < 8 then i + ((input.drop i).take 8).findIdx isHit
          else firstAt isHit input (i + 8) stop := by
        intro i hi
        rw [firstAt, if_pos (by omega), firstAt, if_pos hi, segment_append hi, findIdx_append, hlen hi]
        split_ifs <;> omega
      grind +splitImp +splitIndPred [h.ne_zero, h.firstLane]
    · omega
    · rw [hscan]

theorem findQuote_firstAt (input : Bytes) (index stop : Nat) :
    findQuote input index stop = firstAt (· = 34) input index (min stop input.length) :=
  findByte_firstAt marks_quote (Nat.min_le_right _ _)

theorem findQuoteOrEscape_firstAt (input : Bytes) (index stop : Nat) :
    findQuoteOrEscape input index stop = firstAt (fun b => b = 34 || b = 92) input index (min stop input.length) :=
  findByte_firstAt marks_quoteOrEscape (Nat.min_le_right _ _)

def IsCloser (input : Bytes) (stop quoteCount hashes position : Nat) : Prop :=
  position + quoteCount + hashes ≤ stop ∧ ((input.drop position).take quoteCount).all (· = '"'.toUInt8) ∧
    ((input.drop (position + quoteCount)).take hashes).all (· = '#'.toUInt8)

def IsFirstCloser (input : Bytes) (index stop quoteCount hashes : Nat) : Option (Nat × Nat) → Prop
  | some (position, behind) => index ≤ position ∧ behind = position + quoteCount + hashes ∧
    IsCloser input stop quoteCount hashes position ∧
      ∀ j, index ≤ j → j < position → ¬ IsCloser input stop quoteCount hashes j
  | none => ∀ j, index ≤ j → ¬ IsCloser input stop quoteCount hashes j

variable {j : Nat}

theorem IsCloser.quote (hquotes : 0 < quoteCount) (hstop : stop ≤ input.length)
    (h : IsCloser input stop quoteCount hashes j) : j < stop ∧ ∃ hj : j < input.length, input.get ⟨j, hj⟩ = 34 := by
  obtain ⟨hfits, hall, -⟩ := h
  have hj : j < input.length := by omega
  refine ⟨by omega, hj, ?_⟩
  rw [drop_eq_getElem_cons hj, ← Nat.succ_pred_eq_of_pos hquotes, take_succ_cons, all_cons,
    Bool.and_eq_true] at hall
  exact of_decide_eq_true hall.1

theorem not_hit_of_lt_firstAt (hlow : index ≤ j) (hhigh : j < firstAt isHit input index stop)
    (hj : j < input.length) : isHit (input.get ⟨j, hj⟩) = false := by
  rw [firstAt] at hhigh
  split_ifs at hhigh with hindex
  · have hlt : j - index < ((input.take stop).drop index).findIdx isHit := by omega
    have hnot := not_of_lt_findIdx hlt
    grind
  · omega

theorem findStringCloser_isFirst (hquotes : 0 < quoteCount) (hstop : stop ≤ input.length)
    (hfuel : stop - index < fuel) :
    IsFirstCloser input index stop quoteCount hashes (findStringCloser input stop quoteCount hashes fuel index) := by
  induction fuel generalizing index with
  | zero => omega
  | succ fuel ih =>
    rw [findStringCloser]
    by_cases hindex : index < stop
    · have hge : index ≤ findQuote input index stop := by
        rw [findQuote_firstAt, Nat.min_eq_left hstop, firstAt, if_pos hindex.le]
        exact Nat.le_add_right _ _
      have hbefore : ∀ j, index ≤ j → j < findQuote input index stop → ¬ IsCloser input stop quoteCount hashes j := by
        intro j hlow hhigh hcloser
        obtain ⟨-, hj, hget⟩ := hcloser.quote hquotes hstop
        rw [findQuote_firstAt, Nat.min_eq_left hstop] at hhigh
        have hnot := not_hit_of_lt_firstAt hlow hhigh hj
        rw [hget] at hnot
        cases hnot
      dsimp only
      split_ifs with hbeyond hcloser
      · exact fun j hlow hclose => hbefore j hlow (lt_of_lt_of_le (hclose.quote hquotes hstop).1 hbeyond) hclose
      · exact ⟨hge, rfl, hcloser, hbefore⟩
      · -- the quote that was found does not open a closer, so that the search goes on behind it
        have hhere : ¬ IsCloser input stop quoteCount hashes (findQuote input index stop) := hcloser
        have hskip : ∀ j, index ≤ j → ¬ (findQuote input index stop + 1 ≤ j) → ¬ IsCloser input stop quoteCount hashes j := by
          intro j hlow hnot
          obtain hlt | rfl := Nat.lt_or_eq_of_le (Nat.lt_succ_iff.mp (not_le.mp hnot))
          · exact hbefore j hlow hlt
          · exact hhere
        have hnext : IsFirstCloser input (findQuote input index stop + 1) stop quoteCount hashes _ := ih (by omega)
        cases hfound : findStringCloser input stop quoteCount hashes fuel (findQuote input index stop + 1) with
        | none =>
          rw [hfound] at hnext
          exact fun j hlow => by_contra fun hnot => hskip j hlow (fun hle => hnot (hnext j hle)) (not_not.mp hnot)
        | some found =>
          rw [hfound] at hnext
          obtain ⟨hlow, hbehind, hclose, hmin⟩ := hnext
          refine ⟨by omega, hbehind, hclose, fun j hj hlt => ?_⟩
          grind +splitImp +splitIndPred
    · rw [if_neg hindex]
      exact fun j hlow hclose => hindex (lt_of_le_of_lt hlow (hclose.quote hquotes hstop).1)

/-- Every scanner finds the first byte or the first closer that it looks for, inside the buffer and its end. -/
theorem scanners_first (input : Bytes) (index stop : Nat) :
    (findQuoteOrEscape input index stop = firstAt (fun b => b = 34 || b = 92) input index (min stop input.length) ∧
      findQuote input index stop = firstAt (· = 34) input index (min stop input.length)) ∧
    (index ≤ stop → stop ≤ input.length →
      findQuoteOrEscapeSse2 input index stop = some (firstAt (fun b => b = 34 || b = 92) input index stop) ∧
        findQuoteSse2 input index stop = some (firstAt (· = 34) input index stop)) ∧
    ∀ quoteCount hashes, 0 < quoteCount → IsFirstCloser input index (min stop input.length) quoteCount hashes
      (stringCloser input index stop quoteCount hashes) := by
  refine ⟨⟨findQuoteOrEscape_firstAt .., findQuote_firstAt ..⟩, fun hindex hstop => ?_, fun quoteCount hashes hquotes => ?_⟩
  · refine ⟨findDual_firstAt marks_quoteOrEscape hstop hindex (fun i => ?_) (Nat.lt_succ_self _),
      findDual_firstAt marks_quote hstop hindex (fun i => ?_) (Nat.lt_succ_self _)⟩
    · rw [findQuoteOrEscape_firstAt, Nat.min_eq_left hstop]
    · rw [findQuote_firstAt, Nat.min_eq_left hstop]
  · rw [stringCloser, if_neg hquotes.ne']
    split_ifs with hbeyond
    · intro j hlow hclose
      have := (hclose.quote hquotes (Nat.min_le_right _ _)).1
      omega
    grind [findStringCloser_isFirst]

theorem scanners_first_raw :
    IsFirstCloser [97, 34, 34, 35, 34] 0 5 1 1 (some (2, 4)) ∧ findQuoteSse2 [97, 34, 34, 35, 34] 0 5 = some 1 := by
  obtain ⟨-, hdual, hcloser⟩ := scanners_first [97, 34, 34, 35, 34] 0 5
  exact ⟨hcloser 1 1 (by decide), (hdual (by decide) (by decide)).2⟩

/-- No closer is found without a quote, and an end beyond the buffer is read by the wider scan. -/
theorem scanners_beyond : (¬ ∀ input index stop quoteCount hashes,
      IsFirstCloser input index (min stop input.length) quoteCount hashes (stringCloser input index stop quoteCount hashes)) ∧
    ¬ ∀ input index stop, findQuoteSse2 input index stop = some (firstAt (· = 34) input index (min stop input.length)) := by
  refine ⟨fun h => ?_, fun h => ?_⟩
  · exact h [] 0 0 0 0 0 le_rfl ⟨by decide, by decide, by decide⟩
  · exact absurd (h [] 0 16) (by decide)

end Quotes

end TensorDE.Kdl
