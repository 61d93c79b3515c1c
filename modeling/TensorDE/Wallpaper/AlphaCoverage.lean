import Mathlib.Algebra.Order.Field.Basic
import Mathlib.Data.Rat.Cast.Order
import Mathlib.Tactic.Push
import TensorDE.Scene.Abi
import TensorDE.Wallpaper.Tex

set_option linter.dupNamespace false

namespace TensorDE.Wallpaper.AlphaCoverage

open Bytes Scene List

def gridSize : Nat := 32
def guardCells : Nat := 1

structure TexUploadMip where
  width : UInt32
  height : UInt32
  payloadOffset : UInt64
  payloadLen : UInt64

/-- A vector holds less than `2 ^ 63` bytes. -/
structure TexUpload where
  format : SceneTextureFormat
  mips : List TexUploadMip
  payload : Bytes
  fits : payload.length < 2 ^ 63

abbrev Rows := Fin gridSize → BitVec 32

def fullRows : Rows := fun _ => BitVec.allOnes 32

variable (bits : BitVec 32)

def checkedShl (amount : Nat) : Option (BitVec 32) :=
  if amount < 32 then some (bits <<< amount) else none

def divCeil (a b : Nat) : Nat := (a + b - 1) / b

def columnMask (columnStart columnEnd : Nat) : Option (BitVec 32) :=
  if columnStart ≤ columnEnd then
    if columnEnd - columnStart = gridSize then some (BitVec.allOnes 32)
    else (checkedShl 1#32 (columnEnd - columnStart)).bind fun bits => checkedShl (bits - 1#32) columnStart
  else none

variable (rows : Rows)

def orRows (rowStart rowEnd : Nat) (mask : BitVec 32) : Option Rows :=
  if rowStart ≤ rowEnd ∧ rowEnd ≤ gridSize then
    some fun row => if rowStart ≤ row ∧ row < rowEnd then rows row ||| mask else rows row
  else none

variable (texels : Bytes)

def coverTexel (mip : TexUploadMip) (y rowStart rowEnd : Nat) (rows : Rows) (x : Nat) : Option Rows := do
  let alpha ← texels[((y * mip.width.toNat + x) * 4 + 3) % 2 ^ 64]?
  if alpha = 0 then some rows
  else do
    let mask ← columnMask (x * gridSize / mip.width.toNat) (min (divCeil ((x + 1) * gridSize) mip.width.toNat) gridSize)
    orRows rows rowStart rowEnd mask

def coverLine (mip : TexUploadMip) (rows : Rows) (y : Nat) : Option Rows :=
  (List.range mip.width.toNat).foldlM (coverTexel texels mip y (y * gridSize / mip.height.toNat)
    (min (divCeil ((y + 1) * gridSize) mip.height.toNat) gridSize)) rows

def coverMip (mip : TexUploadMip) (rows : Rows) : Option Rows :=
  (List.range mip.height.toNat).foldlM (coverLine texels mip) rows

variable (payload : Bytes)

def mipPayload (mip : TexUploadMip) : Option Bytes :=
  if mip.payloadOffset.toNat + mip.payloadLen.toNat < 2 ^ 64 then
    Tex.getRange payload mip.payloadOffset.toNat (mip.payloadOffset.toNat + mip.payloadLen.toNat)
  else none

def TexUploadMip.bytes (mip : TexUploadMip) : Nat := mip.width.toNat * mip.height.toNat * 4

variable (checks : Bool)

/-- A product beyond `usize` panics where overflow is checked, and wraps where it is not. -/
def expectedLen (mip : TexUploadMip) : Option Nat :=
  if mip.bytes < 2 ^ 64 then some mip.bytes else if checks then none else some (mip.bytes % 2 ^ 64)

def dilateRow : BitVec 32 :=
  (List.range' 1 guardCells).foldl (fun horizontal shift => horizontal ||| (bits <<< (shift % 32) ||| bits >>> (shift % 32))) bits

def guardRow (rows expanded : Rows) (row : Fin gridSize) : Rows := fun target =>
  if row.val - guardCells ≤ target.val ∧ target.val ≤ min (row.val + guardCells) (gridSize - 1) then
    expanded target ||| dilateRow (rows row)
  else expanded target

def dilateFilterGuard : Rows := (List.finRange gridSize).foldl (guardRow rows) fun _ => 0#32

def coverMips (checks : Bool) (payload : Bytes) : List TexUploadMip → Rows → Option Rows
  | [], rows => some (dilateFilterGuard rows)
  | mip :: mips, rows =>
    match mipPayload payload mip with
    | none => some fullRows
    | some texels => do
      let expected ← expectedLen checks mip
      if mip.width = 0 ∨ mip.height = 0 ∨ texels.length ≠ expected then some fullRows
      else coverMips checks payload mips (← coverMip texels mip rows)

/-- `none` is a panic; `checks` says whether arithmetic overflow panics. -/
def textureAlphaCoverageRows (upload : TexUpload) : Option Rows :=
  if upload.format ≠ .rgba8Unorm then some fullRows
  else coverMips checks upload.payload upload.mips fun _ => 0#32

def WellFormed (mip : TexUploadMip) : Prop :=
  ∃ texels, mipPayload payload mip = some texels ∧ mip.width ≠ 0 ∧ mip.height ≠ 0 ∧ texels.length = mip.bytes

/-- One of `count` equal parts of a side shares more than a point with a cell of the grid. -/
def Overlaps (count index cell : Nat) : Prop :=
  max ((index : ℚ) / count) ((cell : ℚ) / gridSize) < min (((index : ℚ) + 1) / count) (((cell : ℚ) + 1) / gridSize)

def Visible (mip : TexUploadMip) (row column : Nat) : Prop :=
  ∃ y < mip.height.toNat, ∃ x < mip.width.toNat, (∃ alpha, texels[(y * mip.width.toNat + x) * 4 + 3]? = some alpha ∧
    alpha ≠ 0) ∧ Overlaps mip.height.toNat y row ∧ Overlaps mip.width.toNat x column

/-- A texel that is not transparent overlaps the cell. -/
def Covered (upload : TexUpload) (row column : Nat) : Prop :=
  ∃ mip ∈ upload.mips, ∃ texels, mipPayload upload.payload mip = some texels ∧ Visible texels mip row column

def Near (a b : Nat) : Prop := a ≤ b + guardCells ∧ b ≤ a + guardCells

/-- Coverage is exact up to the guard, and a malformed mip is fully covered. -/
def Exact (upload : TexUpload) : Prop :=
  ((∀ mip ∈ upload.mips, WellFormed upload.payload mip) → ∃ rows, textureAlphaCoverageRows checks upload = some rows ∧
    ∀ row column : Fin gridSize, (rows row).getLsbD column = true ↔
      ∃ row' column' : Fin gridSize, Near row row' ∧ Near column column' ∧ Covered upload row' column') ∧
  ((∃ mip ∈ upload.mips, ¬ WellFormed upload.payload mip) → textureAlphaCoverageRows checks upload = some fullRows)

/-- The first mip that is not well formed has a size in bytes beyond `usize` that is not caught. -/
def Overflows (upload : TexUpload) : Prop :=
  ∃ before mip rest texels, upload.mips = before ++ mip :: rest ∧ (∀ m ∈ before, WellFormed upload.payload m) ∧
    mipPayload upload.payload mip = some texels ∧ 2 ^ 64 ≤ mip.bytes ∧
    (checks = true ∨ texels.length = mip.bytes % 2 ^ 64)

def Paints (rows next : Rows) (paint : Nat → Nat → Prop) : Prop :=
  ∀ row column : Fin gridSize, (next row).getLsbD column = true ↔ (rows row).getLsbD column = true ∨ paint row column

variable {α : Type} {xs : List α} {step : Rows → α → Option Rows}

theorem foldlM_paints {paint : α → Nat → Nat → Prop}
    (hstep : ∀ a ∈ xs, ∀ rows, ∃ next, step rows a = some next ∧ Paints rows next (paint a)) (rows : Rows) :
    ∃ next, xs.foldlM step rows = some next ∧ Paints rows next fun row column => ∃ a ∈ xs, paint a row column := by
  induction xs generalizing rows with
  | nil => exact ⟨rows, rfl, fun row column => by simp⟩
  | cons a xs ih =>
    rw [forall_mem_cons] at hstep
    obtain ⟨middle, hmiddle, hpaint⟩ := hstep.1 rows
    obtain ⟨next, hnext, hpaints⟩ := ih hstep.2 middle
    refine ⟨next, by rw [foldlM_cons, hmiddle]; exact hnext, fun row column => ?_⟩
    rw [hpaints, hpaint, or_assoc]
    simp

theorem foldlM_none {a : α} (ha : a ∈ xs)
    (hnone : ∀ rows, step rows a = none) (rows : Rows) : xs.foldlM step rows = none := by
  induction xs generalizing rows with
  | nil => cases ha
  | cons b xs ih =>
    rw [foldlM_cons]
    obtain rfl | ha := mem_cons.mp ha
    · rw [hnone]
      rfl
    · cases step rows b with
      | none => rfl
      | some next => exact ih ha next

variable {count index cell : Nat}

theorem overlaps_iff (hcount : 0 < count) :
    Overlaps count index cell ↔ index * gridSize < (cell + 1) * count ∧ cell * count < (index + 1) * gridSize := by
  have hc : (0 : ℚ) < count := by exact_mod_cast hcount
  have hg : (0 : ℚ) < gridSize := by norm_num [gridSize]
  have hi : (index : ℚ) / count < (index + 1) / count := by gcongr; linarith
  have hs : (cell : ℚ) / gridSize < (cell + 1) / gridSize := by gcongr; linarith
  rw [Overlaps, max_lt_iff, lt_min_iff, lt_min_iff, div_lt_div_iff₀ hc hg, div_lt_div_iff₀ hg hc]
  simp only [hi, hs, true_and, and_true]
  norm_cast

theorem cells_iff (hcount : 0 < count) (hcell : cell < gridSize) :
    index * gridSize / count ≤ cell ∧ cell < min (divCeil ((index + 1) * gridSize) count) gridSize ↔
      Overlaps count index cell := by
  have hstop : cell < ((index + 1) * gridSize + count - 1) / count ↔ cell * count < (index + 1) * gridSize := by
    rw [← Nat.succ_le_iff, Nat.le_div_iff_mul_le hcount, Nat.succ_mul]
    omega
  rw [overlaps_iff hcount, divCeil, lt_min_iff, hstop, ← Nat.lt_succ_iff, Nat.div_lt_iff_lt_mul hcount]
  exact and_congr_right fun _ => and_iff_left hcell

theorem cells_range (hindex : index < count) : index * gridSize / count < gridSize ∧
      index * gridSize / count ≤ min (divCeil ((index + 1) * gridSize) count) gridSize := by
  have hcount : 0 < count := by omega
  have hstart : index * gridSize / count < gridSize := by
    rw [Nat.div_lt_iff_lt_mul hcount, Nat.mul_comm gridSize]
    exact Nat.mul_lt_mul_of_pos_right hindex (by decide)
  refine ⟨hstart, le_min (Nat.div_le_div_right ?_) hstart.le⟩
  rw [Nat.succ_mul]
  omega

theorem ones_bits {width column : Nat} (hwidth : width < 32) (hcolumn : column < 32) :
    ((1#32 <<< width) - 1#32).getLsbD column = decide (column < width) := by
  have hall : ∀ w < 32, ∀ c < 32, ((1#32 <<< w) - 1#32).getLsbD c = decide (c < w) := by decide +kernel
  exact hall width hwidth column hcolumn

variable {start stop : Nat}

theorem columnMask_bits (hstart : start < gridSize) (hle : start ≤ stop) (hstop : stop ≤ gridSize) :
    ∃ mask, columnMask start stop = some mask ∧
      ∀ column : Fin gridSize, mask.getLsbD column = true ↔ start ≤ column ∧ column < stop := by
  have hgrid : gridSize = 32 := rfl
  rw [columnMask, if_pos hle]
  by_cases hfull : stop - start = gridSize
  · rw [if_pos hfull]
    refine ⟨_, rfl, fun column => ?_⟩
    simp only [BitVec.getLsbD_allOnes, decide_eq_true_eq]
    omega
  · rw [if_neg hfull, checkedShl, if_pos (by omega), Option.bind_some, checkedShl, if_pos (by omega)]
    grind [ones_bits]

theorem orRows_paints (hle : start ≤ stop) (hstop : stop ≤ gridSize) (rows : Rows) (mask : BitVec 32) :
    ∃ next, orRows rows start stop mask = some next ∧
      Paints rows next fun row column => (start ≤ row ∧ row < stop) ∧ mask.getLsbD column = true := by
  rw [orRows, if_pos ⟨hle, hstop⟩]
  refine ⟨_, rfl, fun row column => ?_⟩
  split_ifs with h <;> simp [h]

theorem dilateRow_bits (bits : BitVec 32) (column : Fin gridSize) :
    (dilateRow bits).getLsbD column = true ↔ ∃ column' : Fin gridSize, Near column column' ∧ bits.getLsbD column' = true := by
  have hgrid : gridSize = 32 := rfl
  have hdilate : dilateRow bits = bits ||| (bits <<< 1 ||| bits >>> 1) := rfl
  simp only [hdilate, BitVec.getLsbD_or, BitVec.getLsbD_shiftLeft, BitVec.getLsbD_ushiftRight, Bool.or_eq_true, Near,
    guardCells, Bool.and_eq_true]
  constructor
  · rintro (hbit | ⟨⟨-, hpos⟩, hbit⟩ | hbit)
    · exact ⟨column, by omega, hbit⟩
    · exact ⟨⟨column - 1, by omega⟩, by simp at hpos ⊢; omega, hbit⟩
    · have := BitVec.lt_of_getLsbD hbit
      exact ⟨⟨1 + column, by omega⟩, by simp; omega, hbit⟩
  grind -linarith

theorem dilateFilterGuard_bits (rows : Rows) (row column : Fin gridSize) :
    (dilateFilterGuard rows row).getLsbD column = true ↔
      ∃ row' column' : Fin gridSize, Near row row' ∧ Near column column' ∧ (rows row').getLsbD column' = true := by
  have hstep : ∀ a ∈ List.finRange gridSize, ∀ expanded, ∃ next, some (guardRow rows expanded a) = some next ∧
      Paints expanded next fun target column => Near target a ∧ (dilateRow (rows a)).getLsbD column = true := by
    refine fun a _ expanded => ⟨_, rfl, fun target column => ?_⟩
    have hrange : a.val - guardCells ≤ target.val ∧ target.val ≤ min (a.val + guardCells) (gridSize - 1) ↔ Near target a := by
      simp only [Near]
      omega
    simp only [guardRow]
    split_ifs with h
    · simp [hrange.mp h]
    · simp [(hrange.not).mp h]
  obtain ⟨next, hnext, hpaints⟩ := foldlM_paints hstep fun _ => 0#32
  have hfold : dilateFilterGuard rows = next := Option.some.inj (foldlM_pure.symm.trans hnext)
  rw [hfold, hpaints]
  grind +splitImp +splitIndPred [dilateRow_bits]

section Mip

variable {payload texels : Bytes} {mip : TexUploadMip} {checks : Bool} {upload : TexUpload}

theorem mipPayload_length (h : mipPayload payload mip = some texels) : texels.length ≤ payload.length := by
  grind [mipPayload, Tex.getRange]

theorem coverTexel_paints {x y : Nat} (hlength : texels.length = mip.bytes) (hfits : mip.bytes < 2 ^ 64)
    (hx : x < mip.width.toNat) (hy : y < mip.height.toNat) (rows : Rows) :
    ∃ next, coverTexel texels mip y (y * gridSize / mip.height.toNat)
        (min (divCeil ((y + 1) * gridSize) mip.height.toNat) gridSize) rows x = some next ∧
      Paints rows next fun row column => (∃ alpha, texels[(y * mip.width.toNat + x) * 4 + 3]? = some alpha ∧ alpha ≠ 0) ∧
        Overlaps mip.height.toNat y row ∧ Overlaps mip.width.toNat x column := by
  have hindex : (y * mip.width.toNat + x) * 4 + 3 < mip.bytes := by
    have hrow : (y + 1) * mip.width.toNat ≤ mip.height.toNat * mip.width.toNat := Nat.mul_le_mul_right _ hy
    rw [Nat.succ_mul, Nat.mul_comm mip.height.toNat] at hrow
    rw [TexUploadMip.bytes]
    omega
  obtain ⟨alpha, hget⟩ : ∃ alpha, texels[(y * mip.width.toNat + x) * 4 + 3]? = some alpha := by
    rw [← Option.isSome_iff_exists]
    simpa [hlength] using hindex
  rw [coverTexel, Nat.mod_eq_of_lt (hindex.trans hfits), hget, Option.bind_eq_bind, Option.bind_some]
  by_cases halpha : alpha = 0
  · rw [if_pos halpha]
    refine ⟨rows, rfl, fun row column => ?_⟩
    simp [halpha]
  · obtain ⟨hcolumn, hcolumns⟩ := cells_range hx
    obtain ⟨hrow, hrows⟩ := cells_range hy
    obtain ⟨mask, hmask, hbits⟩ := columnMask_bits hcolumn hcolumns (min_le_right _ _)
    obtain ⟨next, hnext, hpaints⟩ := orRows_paints hrows (min_le_right _ _) rows mask
    rw [if_neg halpha, hmask, Option.bind_eq_bind, Option.bind_some]
    refine ⟨next, hnext, fun row column => ?_⟩
    rw [hpaints]
    grind +splitImp +splitIndPred [cells_iff]

theorem coverMip_paints (hlength : texels.length = mip.bytes) (hfits : mip.bytes < 2 ^ 64) (rows : Rows) :
    ∃ next, coverMip texels mip rows = some next ∧ Paints rows next (Visible texels mip) := by
  have hline : ∀ y ∈ range mip.height.toNat, ∀ rows, ∃ next, coverLine texels mip rows y = some next ∧
      Paints rows next fun row column => ∃ x ∈ range mip.width.toNat,
        (∃ alpha, texels[(y * mip.width.toNat + x) * 4 + 3]? = some alpha ∧ alpha ≠ 0) ∧
          Overlaps mip.height.toNat y row ∧ Overlaps mip.width.toNat x column :=
    fun y hy rows => foldlM_paints (fun x hx rows =>
      coverTexel_paints hlength hfits (mem_range.mp hx) (mem_range.mp hy) rows) rows
  obtain ⟨next, hnext, hpaints⟩ := foldlM_paints hline rows
  refine ⟨next, hnext, fun row column => ?_⟩
  rw [hpaints]
  simp only [mem_range, Visible]

/-- A payload that wraps to a shorter one is read beyond its end. -/
theorem coverMip_eq_none (hlength : texels.length = mip.bytes % 2 ^ 64) (hlarge : 2 ^ 64 ≤ mip.bytes)
    (hshort : texels.length < 2 ^ 63) (rows : Rows) : coverMip texels mip rows = none := by
  have hwide : 0 < mip.width.toNat := by
    refine Nat.pos_of_ne_zero fun h => ?_
    rw [TexUploadMip.bytes, h] at hlarge
    omega
  have hbytes : texels.length / 4 < mip.width.toNat * mip.height.toNat := by
    rw [TexUploadMip.bytes] at hlarge
    omega
  have hbeyond : texels.length ≤ texels.length / 4 * 4 + 3 := by omega
  have hx : texels.length / 4 % mip.width.toNat < mip.width.toNat := Nat.mod_lt _ hwide
  have hy : texels.length / 4 / mip.width.toNat < mip.height.toNat := Nat.div_lt_of_lt_mul hbytes
  have htexel : ∀ rowStart rowEnd rows, coverTexel texels mip (texels.length / 4 / mip.width.toNat) rowStart rowEnd rows
      (texels.length / 4 % mip.width.toNat) = none := by
    intro rowStart rowEnd rows
    rw [coverTexel, Nat.mul_comm (_ / _), Nat.div_add_mod, Nat.mod_eq_of_lt (by omega), getElem?_eq_none hbeyond]
    rfl
  exact foldlM_none (mem_range.mpr hy) (fun rows => foldlM_none (mem_range.mpr hx) (htexel _ _) rows) rows

theorem expectedLen_eq (hfits : mip.bytes < 2 ^ 64) : expectedLen checks mip = some mip.bytes := by
  rw [expectedLen, if_pos hfits]

theorem WellFormed.coverMips (h : WellFormed payload mip) (hpayload : payload.length < 2 ^ 63) (mips : List TexUploadMip)
    (rows : Rows) : ∃ texels next, mipPayload payload mip = some texels ∧ Paints rows next (Visible texels mip) ∧
      coverMips checks payload (mip :: mips) rows = AlphaCoverage.coverMips checks payload mips next := by
  obtain ⟨texels, htexels, hwidth, hheight, hlength⟩ := h
  have hfits : mip.bytes < 2 ^ 64 := by
    have := mipPayload_length htexels
    omega
  obtain ⟨next, hnext, hpaints⟩ := coverMip_paints hlength hfits rows
  grind +splitImp +splitIndPred [AlphaCoverage.coverMips, expectedLen_eq]

theorem coverMips_paints {mips : List TexUploadMip} (h : ∀ mip ∈ mips, WellFormed payload mip)
    (hpayload : payload.length < 2 ^ 63) (rest : List TexUploadMip) (rows : Rows) :
    ∃ next, coverMips checks payload (mips ++ rest) rows = coverMips checks payload rest next ∧
      Paints rows next fun row column =>
        ∃ mip ∈ mips, ∃ texels, mipPayload payload mip = some texels ∧ Visible texels mip row column := by
  induction mips generalizing rows with
  | nil => exact ⟨rows, rfl, fun row column => by simp⟩
  | cons mip mips ih =>
    rw [forall_mem_cons] at h
    obtain ⟨texels, middle, htexels, hpaint, heq⟩ := WellFormed.coverMips h.1 hpayload (mips ++ rest) rows
    obtain ⟨next, hnext, hpaints⟩ := ih h.2 middle
    refine ⟨next, heq.trans hnext, fun row column => ?_⟩
    rw [hpaints, hpaint, or_assoc]
    simp [htexels]

/-- A mip that is not well formed is fully covered, unless its size goes unnoticed. -/
theorem coverMips_malformed (h : ¬ WellFormed payload mip) (hpayload : payload.length < 2 ^ 63) (rest : List TexUploadMip)
    (rows : Rows) : coverMips checks payload (mip :: rest) rows = some fullRows ↔
      ¬ ∃ texels, mipPayload payload mip = some texels ∧ 2 ^ 64 ≤ mip.bytes ∧
        (checks = true ∨ texels.length = mip.bytes % 2 ^ 64) := by
  rw [coverMips]
  cases htexels : mipPayload payload mip with
  | none => simp
  | some texels =>
    have hshort := (mipPayload_length htexels).trans_lt hpayload
    by_cases hlarge : 2 ^ 64 ≤ mip.bytes
    · have hsize : mip.width ≠ 0 ∧ mip.height ≠ 0 := by
        constructor <;> rintro hzero <;> simp [TexUploadMip.bytes, hzero] at hlarge
      grind +splitImp +splitIndPred [expectedLen, coverMip_eq_none]
    · have hbad : mip.width = 0 ∨ mip.height = 0 ∨ texels.length ≠ mip.bytes := by
        by_contra hgood
        push Not at hgood
        exact h ⟨texels, htexels, hgood⟩
      grind +splitImp +splitIndPred [expectedLen_eq]

end Mip

theorem exists_first_malformed {payload : Bytes} {mips : List TexUploadMip} (h : ∃ mip ∈ mips, ¬ WellFormed payload mip) :
    ∃ before mip rest, mips = before ++ mip :: rest ∧ (∀ m ∈ before, WellFormed payload m) ∧ ¬ WellFormed payload mip := by
  induction mips with
  | nil => simp at h
  | cons m mips ih =>
    by_cases hm : WellFormed payload m
    · obtain ⟨bad, hmem, hbad⟩ := h
      have hmem : bad ∈ mips := (mem_cons.mp hmem).resolve_left fun heq => hbad (heq ▸ hm)
      obtain ⟨before, mip, rest, rfl, hbefore, hbad⟩ := ih ⟨bad, hmem, hbad⟩
      grind
    · exact ⟨[], m, mips, rfl, by simp, hm⟩

def pixel : TexUpload := ⟨.rgba8Unorm, [⟨1, 1, 0, 4⟩], [255, 255, 255, 255], by decide⟩

def unpaid : TexUpload := ⟨.rgba8Unorm, [⟨2147483648, 2147483648, 0, 0⟩], [], by decide⟩

end TensorDE.Wallpaper.AlphaCoverage
