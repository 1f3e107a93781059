-- SUMMARY: Symmetric matrices stored as their upper triangle, and their products with columns.
import Rebalancing.Column

/-!
# Symmetric matrices

A symmetric matrix keeps the cells on and above its diagonal, column by column:
column `j` holds the `j + 1` cells in rows `0` to `j`. The cells `(i, j)` and
`(j, i)` are one.
-/

namespace Rebalancing

variable {F : Type}

/-- A symmetric matrix, stored as its upper triangle. -/
structure SymMatrix (F : Type) where
  columns : Array (Column F)
  /-- Column `j` reaches from the first row to the diagonal. -/
  size_column : ∀ (j : Nat) (h : j < columns.size), columns[j].size = j + 1

namespace SymMatrix

/-! ## Building -/

/-- Number of rows, which is the number of columns. -/
@[inline] def order (m : SymMatrix F) : Nat := m.columns.size

/-- The symmetric matrix of order `n` whose cell in row `i` and column `j`,
with `i ≤ j`, is `f i j`. -/
@[inline] def ofFn (n : Nat) (f : Nat → Nat → F) : SymMatrix F where
  columns := Array.ofFn fun j : Fin n => Column.tabulate (j + 1) fun i => f i j
  size_column j h := by simp

@[simp] theorem order_ofFn (n : Nat) (f : Nat → Nat → F) : (ofFn n f).order = n := by
  simp [ofFn, order]

/-- The stored cells in one column, the upper triangle read column by column. -/
def packed (m : SymMatrix F) : Column F := m.columns.flatten

variable [Scalar F]

/-- Fill a symmetric matrix from the cells of a whole square, listed by rows or
by columns. A cell off the diagonal is listed twice: the later number counts,
the earlier one where the list ends before the later, and zero where it ends
before both. -/
def ofSquare (n : Nat) (data : Array F) : SymMatrix F :=
  ofFn n fun i j => data.getD (j * n + i) (Column.coord data (i * n + j))

/-! ## Reading -/

/-- The cell in row `i` and column `j` of the stored triangle. -/
@[inline] def upper (m : SymMatrix F) (i j : Nat) : F :=
  Column.coord (m.columns.getD j #[]) i

/-- The cell in a row and a column, in either order. -/
@[inline] def entry (m : SymMatrix F) (r c : Nat) : F :=
  if r ≤ c then m.upper r c else m.upper c r

theorem entry_comm (m : SymMatrix F) (r c : Nat) : m.entry r c = m.entry c r := by
  unfold entry
  split <;> split
  · rw [Nat.le_antisymm ‹r ≤ c› ‹c ≤ r›]
  · rfl
  · rfl
  · omega

theorem upper_ofFn {n : Nat} (f : Nat → Nat → F) {i j : Nat} (hij : i ≤ j) (hj : j < n) :
    (ofFn n f).upper i j = f i j := by
  simp [upper, ofFn, Array.getD, hj, Column.coord_tabulate, Nat.lt_succ_of_le hij]

theorem entry_ofFn {n : Nat} (f : Nat → Nat → F) {i j : Nat} (hij : i ≤ j) (hj : j < n) :
    (ofFn n f).entry i j = f i j := by
  rw [entry, if_pos hij, upper_ofFn f hij hj]

/-- A symmetric matrix is known by its stored cells. -/
theorem ext_upper {m m' : SymMatrix F} (horder : m.order = m'.order)
    (h : ∀ i j, i ≤ j → j < m.order → m.upper i j = m'.upper i j) : m = m' := by
  obtain ⟨columns, hsize⟩ := m
  obtain ⟨columns', hsize'⟩ := m'
  have hcolumns : columns = columns' := by
    refine Array.ext horder fun j hj hj' => ?_
    refine Column.ext_coord ((hsize j hj).trans (hsize' j hj').symm) fun i hi => ?_
    have hij : i ≤ j := by
      rw [hsize j hj] at hi
      omega
    have hcell := h i j hij hj
    simpa [upper, Array.getD, hj, hj'] using hcell
  subst hcolumns
  rfl

/-! ## Products -/

/-- Multiply every cell. -/
def scale (a : F) (m : SymMatrix F) : SymMatrix F :=
  ofFn m.order fun i j => a * m.upper i j

/-- The product of row `r` with the entries of `x` that start at `start`. -/
@[inline] def rowDot (m : SymMatrix F) (r : Nat) (x : Column F) (start : Nat) : F :=
  sumTo m.order fun c => m.entry r c * x.coord (start + c)

end SymMatrix

end Rebalancing
