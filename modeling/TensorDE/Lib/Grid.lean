import TensorDE.Lib.Ranges

namespace TensorDE

open Ranges Range

/-- A grid of cells that a buffer holds slice by slice and row by row: `columns` cells to a row, `rows` rows to
a slice, and `bytes` bytes to a cell. -/
structure Grid where
  columns : Nat
  rows : Nat
  bytes : Nat

namespace Grid

variable {g : Grid} {slice row column slice' row' column' : Nat}

/-- The number of cells before a cell. -/
def index (g : Grid) (slice row column : Nat) : Nat := (slice * g.rows + row) * g.columns + column

def cell (g : Grid) (slice row column : Nat) : Range :=
  ⟨g.index slice row column * g.bytes, (g.index slice row column + 1) * g.bytes⟩

theorem eq_of_mul_add {n a b c d : Nat} (hb : b < n) (hd : d < n) (h : a * n + b = c * n + d) : a = c ∧ b = d := by
  grind [Nat.mul_comm, Nat.add_mul_div_left, Nat.div_eq_of_lt]

theorem index_injective (hrow : row < g.rows) (hrow' : row' < g.rows) (hcolumn : column < g.columns)
    (hcolumn' : column' < g.columns) (h : g.index slice row column = g.index slice' row' column') :
    slice = slice' ∧ row = row' ∧ column = column' := by
  grind [eq_of_mul_add, index]

theorem cell_apart (h : g.index slice row column ≠ g.index slice' row' column') :
    Apart (g.cell slice row column) (g.cell slice' row' column') := by
  rintro x ⟨⟨hlow, hhigh⟩, hlow', hhigh'⟩
  simp only [cell] at hlow hhigh hlow' hhigh'
  obtain hlt | hlt := Nat.lt_or_gt_of_ne h
  · have hnext := Nat.mul_le_mul_right g.bytes (Nat.succ_le_of_lt hlt)
    grind
  · have hnext := Nat.mul_le_mul_right g.bytes (Nat.succ_le_of_lt hlt)
    grind

theorem index_le {slices rows columns : Nat} (hslice : slice < slices) (hrow : row < rows) (hcolumn : column < columns) :
    g.index slice row column ≤ g.index (slices - 1) (rows - 1) (columns - 1) := by
  have hlines : slice * g.rows + row ≤ (slices - 1) * g.rows + (rows - 1) :=
    Nat.add_le_add (Nat.mul_le_mul_right _ (by omega)) (by omega)
  exact Nat.add_le_add (Nat.mul_le_mul_right _ hlines) (by omega)

theorem cell_stop_le (h : g.index slice row column ≤ g.index slice' row' column') :
    (g.cell slice row column).stop ≤ (g.cell slice' row' column').stop :=
  Nat.mul_le_mul_right _ (Nat.succ_le_succ h)

end Grid

end TensorDE
