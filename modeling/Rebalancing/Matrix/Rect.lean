-- SUMMARY: Rectangular matrices stored column by column, and their products with columns.
import Rebalancing.Column

/-!
# Rectangular matrices

A rectangular matrix keeps its cells column by column. It is built through
`ofFn` and read through `entry`; the layout matters only where cells are listed
in full.
-/

namespace Rebalancing

variable {F : Type}

/-- A matrix with every cell stored, one column after the other. -/
structure RectMatrix (F : Type) where
  rows : Nat
  cols : Nat
  cells : Column F
  size_cells : cells.size = rows * cols

namespace RectMatrix

/-! ## Building -/

/-- The matrix whose cell in row `r` and column `c` is `f r c`. -/
@[inline] def ofFn (rows cols : Nat) (f : Nat → Nat → F) : RectMatrix F where
  rows
  cols
  cells := Column.tabulate (rows * cols) fun k => f (k % rows) (k / rows)
  size_cells := by simp

@[simp] theorem rows_ofFn (rows cols : Nat) (f : Nat → Nat → F) :
    (ofFn rows cols f).rows = rows := rfl

@[simp] theorem cols_ofFn (rows cols : Nat) (f : Nat → Nat → F) :
    (ofFn rows cols f).cols = cols := rfl

/-- The matrix whose only column is `x`. -/
def ofColumn (x : Column F) : RectMatrix F where
  rows := x.size
  cols := 1
  cells := x
  size_cells := by simp

@[simp] theorem rows_ofColumn (x : Column F) : (ofColumn x).rows = x.size := rfl

@[simp] theorem cols_ofColumn (x : Column F) : (ofColumn x).cols = 1 := rfl

variable [Scalar F]

/-- Fill a matrix column by column. Cells without a number are zero and numbers
without a cell are dropped. -/
def ofColumns (rows cols : Nat) (data : Array F) : RectMatrix F :=
  ofFn rows cols fun r c => Column.coord data (c * rows + r)

/-- Fill a matrix row by row. Cells without a number are zero and numbers
without a cell are dropped. -/
def ofRows (rows cols : Nat) (data : Array F) : RectMatrix F :=
  ofFn rows cols fun r c => Column.coord data (r * cols + c)

/-! ## Reading -/

/-- The cell in a row and a column of the matrix. -/
@[inline] def entry (m : RectMatrix F) (r c : Nat) : F :=
  m.cells.coord (c * m.rows + r)

theorem entry_ofFn {rows cols : Nat} (f : Nat → Nat → F) {r c : Nat}
    (hr : r < rows) (hc : c < cols) : (ofFn rows cols f).entry r c = f r c := by
  have hk : c * rows + r < rows * cols := by
    calc c * rows + r < c * rows + rows := by omega
      _ = rows * (c + 1) := by rw [Nat.mul_succ, Nat.mul_comm]
      _ ≤ rows * cols := Nat.mul_le_mul_left _ hc
  have hmod : (c * rows + r) % rows = r := by
    rw [Nat.add_comm, Nat.add_mul_mod_self_right, Nat.mod_eq_of_lt hr]
  have hdiv : (c * rows + r) / rows = c := by
    rw [Nat.add_comm, Nat.add_mul_div_right _ _ (by omega), Nat.div_eq_of_lt hr, Nat.zero_add]
  simp only [entry, ofFn, Column.coord_tabulate, if_pos hk, hmod, hdiv]

@[simp] theorem entry_ofColumn (x : Column F) (r : Nat) : (ofColumn x).entry r 0 = x.coord r := by
  simp [entry, ofColumn]

/-! ## Products -/

/-- The product of row `r` with the entries of `x` that start at `start`. -/
@[inline] def rowDot (m : RectMatrix F) (r : Nat) (x : Column F) (start : Nat) : F :=
  sumTo m.cols fun c => m.entry r c * x.coord (start + c)

/-- The product of column `c` with the entries of `x` that start at `start`. -/
@[inline] def colDot (m : RectMatrix F) (c : Nat) (x : Column F) (start : Nat) : F :=
  sumTo m.rows fun r => m.entry r c * x.coord (start + r)

end RectMatrix

end Rebalancing
