-- SUMMARY: Block operators over the reals as matrices: both products of an operator are those with one matrix and its transpose.
import Mathlib
import Rebalancing.Proofs.Conic.BlockProduct
import Rebalancing.Proofs.Matrix.QuadraticForm

/-!
# Block operators as matrices

The cells of an operator add up what its blocks hold. If every block lies inside the
operator, a product from either side adds up the same cells, by rows or by columns.
So both products are those with the matrix of the cells.
-/

open Finset Matrix

namespace Rebalancing

/-! ## Sums over a stretch -/

/-- A sum over a stretch of places is a sum over the stretch. -/
theorem sum_stretch {start length total : ℕ} (h : start + length ≤ total) (f : ℕ → ℝ) :
    ∑ i ∈ range total, (if start ≤ i ∧ i < start + length then f i else 0) =
      ∑ i ∈ range length, f (start + i) := by
  have hstretch : (range total).filter (fun i => start ≤ i ∧ i < start + length) =
      Ico start (start + length) := by
    ext i
    simp only [mem_filter, mem_range, mem_Ico]
    omega
  rw [← sum_filter, hstretch, sum_Ico_eq_sum_range, Nat.add_sub_cancel_left]

/-! ## Blocks -/

namespace BlockBody

theorem rowDot_real (body : BlockBody ℝ) {r : ℕ} (hr : r < body.rows) (x : Column ℝ) (start : ℕ) :
    body.rowDot r x start = ∑ c ∈ range body.cols, body.entry r c * x.coord (start + c) := by
  cases body with
  | rect m => exact m.rowDot_real r x start
  | sym m => exact m.rowDot_real r x start
  | unit n =>
    have hr : r < n := hr
    simp [rowDot, cols, entry, hr]

theorem colDot_real (body : BlockBody ℝ) {c : ℕ} (hc : c < body.cols) (x : Column ℝ) (start : ℕ) :
    body.colDot c x start = ∑ r ∈ range body.rows, body.entry r c * x.coord (start + r) := by
  cases body with
  | rect m => exact m.colDot_real c x start
  | sym m =>
    refine (m.rowDot_real c x start).trans (sum_congr rfl fun r _ => ?_)
    rw [m.entry_comm c r]
    rfl
  | unit n =>
    have hc : c < n := hc
    simp [colDot, rows, entry, hc]

end BlockBody

namespace Block

/-- What the block holds in a cell of its operator. -/
noncomputable def cell (b : Block ℝ) (r c : ℕ) : ℝ :=
  if b.meetsRow r && b.meetsCol c then b.sign * b.body.entry (r - b.top) (c - b.left) else 0

/-- The block lies in a rectangle. -/
structure Within {F : Type} (b : Block F) (rows cols : ℕ) : Prop where
  rows_le : b.top + b.body.rows ≤ rows
  cols_le : b.left + b.body.cols ≤ cols

section Cells

variable (b : Block ℝ) (r c : ℕ)

theorem cell_eq :
    b.cell r c =
      if b.top ≤ r ∧ r < b.top + b.body.rows then
        if b.left ≤ c ∧ c < b.left + b.body.cols then
          b.sign * b.body.entry (r - b.top) (c - b.left)
        else 0
      else 0 := by
  simp only [cell, meetsRow, meetsCol, Bool.and_eq_true, decide_eq_true_eq, ite_and]

end Cells

variable {b : Block ℝ} {rows cols : ℕ} (h : b.Within rows cols)

include h

theorem rowPart_eq_sum (r : ℕ) (x : Column ℝ) :
    b.rowPart r x = ∑ c ∈ range cols, b.cell r c * x.coord c := by
  simp only [cell_eq, rowPart, meetsRow, Bool.and_eq_true, decide_eq_true_eq]
  by_cases hr : b.top ≤ r ∧ r < b.top + b.body.rows
  · simp only [if_pos hr, ite_mul, zero_mul]
    rw [sum_stretch h.cols_le, b.body.rowDot_real (by omega), mul_sum]
    apply sum_congr rfl
    intro c _
    rw [Nat.add_sub_cancel_left, mul_assoc]
  · simp only [if_neg hr, zero_mul, sum_const_zero]

theorem colPart_eq_sum (c : ℕ) (x : Column ℝ) :
    b.colPart c x = ∑ r ∈ range rows, b.cell r c * x.coord r := by
  simp only [cell_eq, colPart, meetsCol, Bool.and_eq_true, decide_eq_true_eq]
  by_cases hc : b.left ≤ c ∧ c < b.left + b.body.cols
  · simp only [if_pos hc, ite_mul, zero_mul]
    rw [sum_stretch h.rows_le, b.body.colDot_real (by omega), mul_sum]
    apply sum_congr rfl
    intro r _
    rw [Nat.add_sub_cancel_left, mul_assoc]
  · simp only [if_neg hc, ite_self, zero_mul, sum_const_zero]

end Block

/-! ## Operators -/

namespace Operator

/-- The cells of an operator, as a matrix. -/
noncomputable def toMatrix (op : Operator ℝ) : Matrix (Fin op.rows) (Fin op.cols) ℝ :=
  .of fun r c => op.entry r c

theorem entry_real (op : Operator ℝ) (r c : ℕ) :
    op.entry r c = (op.blocks.map fun b => b.cell r c).sum := by
  -- By induction on the blocks, whatever the cells before them add up to.
  have hfold : ∀ (blocks : List (Block ℝ)) (acc : ℝ),
      blocks.foldl (fun acc b =>
        if b.meetsRow r && b.meetsCol c then acc + b.signed (b.body.entry (r - b.top) (c - b.left))
        else acc) acc = acc + (blocks.map fun b => b.cell r c).sum := by
    intro blocks
    induction blocks with
    | nil => simp
    | cons b blocks ih =>
      intro acc
      rw [List.foldl_cons, ih, List.map_cons, List.sum_cons, ← add_assoc, Block.cell,
        Block.signed_real, mul_comm b.sign]
      split
      · rfl
      · rw [add_zero]
  rw [entry, hfold, zero_add]

/-- Products with what every block holds add up to the product with what they hold
together. -/
theorem sum_products (cell : Block ℝ → ℕ → ℝ) (v : ℕ → ℝ) (n : ℕ) (blocks : List (Block ℝ)) :
    (blocks.map fun b => ∑ i ∈ range n, cell b i * v i).sum =
      ∑ i ∈ range n, (blocks.map fun b => cell b i).sum * v i := by
  induction blocks with
  | nil => simp
  | cons b blocks ih => simp only [List.map_cons, List.sum_cons, ih, add_mul, sum_add_distrib]

section Products

variable {op : Operator ℝ} (h : ∀ b ∈ op.blocks, b.Within op.rows op.cols) (a : ℝ)
  (x : Column ℝ) (b : ℝ) (y : Column ℝ)

include h

/-- The product adds up the cells of every row. -/
theorem vec_mulAdd : (op.mulAdd a x b y).vec op.rows =
    a • (op.toMatrix *ᵥ x.vec op.cols) + b • y.vec op.rows := by
  ext r
  have hparts : (op.blocks.map fun blk => blk.rowPart r x).sum =
      (op.toMatrix *ᵥ x.vec op.cols) r := by
    calc _ = (op.blocks.map fun blk => ∑ c ∈ range op.cols, blk.cell r c * x.coord c).sum := by
          rw [List.map_congr_left fun blk hblk => Block.rowPart_eq_sum (h blk hblk) r x]
      _ = ∑ c ∈ range op.cols, op.entry r c * x.coord c := by
          rw [sum_products]
          exact sum_congr rfl fun c _ => by rw [entry_real]
      _ = _ := sum_range _
  change (op.mulAdd a x b y).coord r = _
  rw [coord_mulAdd _ _ _ _ _ r.isLt, hparts, add_comm]
  rfl

/-- The product from the other side adds up the cells of every column. -/
theorem vec_transMulAdd : (op.transMulAdd a x b y).vec op.cols =
    a • (op.toMatrixᵀ *ᵥ x.vec op.rows) + b • y.vec op.cols := by
  ext c
  have hparts : (op.blocks.map fun blk => blk.colPart c x).sum =
      (op.toMatrixᵀ *ᵥ x.vec op.rows) c := by
    calc _ = (op.blocks.map fun blk => ∑ r ∈ range op.rows, blk.cell r c * x.coord r).sum := by
          rw [List.map_congr_left fun blk hblk => Block.colPart_eq_sum (h blk hblk) c x]
      _ = ∑ r ∈ range op.rows, op.entry r c * x.coord r := by
          rw [sum_products (fun blk r => blk.cell r c)]
          exact sum_congr rfl fun r _ => by rw [entry_real]
      _ = _ := sum_range _
  change (op.transMulAdd a x b y).coord c = _
  rw [coord_transMulAdd _ _ _ _ _ c.isLt, hparts, add_comm]
  rfl

end Products

theorem fits_of_size {dim : ℕ} {x : Column ℝ} (h : x.size = dim) : fits dim x = true := by
  simp [fits, h]

/-- Nothing is kept of a column of the same length. -/
theorem keepRest_of_size {y image : Column ℝ} (h : y.size = image.size) :
    keepRest y image = image := by
  simp [keepRest, ← h]

theorem mulAdd?_eq_some (op : Operator ℝ) (a : ℝ) {x : Column ℝ} (b : ℝ) {y : Column ℝ}
    (hx : x.size = op.cols) (hy : y.size = op.rows) :
    op.mulAdd? a x b y = some (op.mulAdd a x b y) := by
  rw [mulAdd?, fits_of_size hx, fits_of_size hy, keepRest_of_size (by simp [hy])]
  rfl

theorem transMulAdd?_eq_some (op : Operator ℝ) (a : ℝ) {x : Column ℝ} (b : ℝ) {y : Column ℝ}
    (hx : x.size = op.rows) (hy : y.size = op.cols) :
    op.transMulAdd? a x b y = some (op.transMulAdd a x b y) := by
  rw [transMulAdd?, fits_of_size hx, fits_of_size hy, keepRest_of_size (by simp [hy])]
  rfl

theorem addAbsRows?_eq_some (op : Operator ℝ) {x : Column ℝ} (h : x.size = op.rows) :
    op.addAbsRows? x = some (op.addAbsRows x) := by
  have hsize : (op.addAbsRows x).size = op.rows := Column.size_tabulate _ _
  rw [addAbsRows?, fits_of_size h, keepRest_of_size (h.trans hsize.symm)]
  rfl

theorem addAbsCols?_eq_some (op : Operator ℝ) {x : Column ℝ} (h : x.size = op.cols) :
    op.addAbsCols? x = some (op.addAbsCols x) := by
  have hsize : (op.addAbsCols x).size = op.cols := Column.size_tabulate _ _
  rw [addAbsCols?, fits_of_size h, keepRest_of_size (h.trans hsize.symm)]
  rfl

end Operator

/-! ## Methods that act by a matrix -/

/-- An operator by what it does to columns in place. A method has no result where it
breaks off. -/
@[ext]
structure Methods (F : Type) where
  /-- The numbers of rows and columns. -/
  size? : Option (ℕ × ℕ)
  mulAdd? : F → Column F → F → Column F → Option (Column F)
  transMulAdd? : F → Column F → F → Column F → Option (Column F)
  addAbsCols? : Column F → Option (Column F)
  addAbsRows? : Column F → Option (Column F)

/-- What a block operator does to columns. -/
def Operator.methods {F : Type} [Scalar F] (op : Operator F) : Methods F where
  size? := some (op.rows, op.cols)
  mulAdd? := op.mulAdd?
  transMulAdd? := op.transMulAdd?
  addAbsCols? := op.addAbsCols?
  addAbsRows? := op.addAbsRows?

/-- The operator reports the size of the matrix. On columns of its sides every product
and every absolute sum has a result, and the products are those with the matrix and
with its transpose. -/
structure Methods.ActsBy (o : Methods ℝ) {rows cols : ℕ} (M : Matrix (Fin rows) (Fin cols) ℝ) :
    Prop where
  size_eq : o.size? = some (rows, cols)
  mulAdd : ∀ (a : ℝ) (x : Column ℝ) (b : ℝ) (y : Column ℝ), x.size = cols → y.size = rows →
    ∃ z, o.mulAdd? a x b y = some z ∧ z.size = rows ∧
      z.vec rows = a • (M *ᵥ x.vec cols) + b • y.vec rows
  transMulAdd : ∀ (a : ℝ) (x : Column ℝ) (b : ℝ) (y : Column ℝ), x.size = rows → y.size = cols →
    ∃ z, o.transMulAdd? a x b y = some z ∧ z.size = cols ∧
      z.vec cols = a • (Mᵀ *ᵥ x.vec rows) + b • y.vec cols
  addAbsCols : ∀ x : Column ℝ, x.size = cols → ∃ z, o.addAbsCols? x = some z ∧ z.size = cols
  addAbsRows : ∀ x : Column ℝ, x.size = rows → ∃ z, o.addAbsRows? x = some z ∧ z.size = rows

/-- An operator with every block inside acts by the matrix of its cells. -/
theorem Operator.actsBy_of_cells {op : Operator ℝ} (h : ∀ b ∈ op.blocks, b.Within op.rows op.cols)
    {rows cols : ℕ} {M : Matrix (Fin rows) (Fin cols) ℝ} (hrows : op.rows = rows)
    (hcols : op.cols = cols)
    (hM : (Matrix.of fun (r : Fin rows) (c : Fin cols) => op.entry r c) = M) :
    op.methods.ActsBy M := by
  subst hrows hcols hM
  constructor
  · rfl
  · intro a x b y hx hy
    exact ⟨_, op.mulAdd?_eq_some a b hx hy, op.size_mulAdd a x b y, vec_mulAdd h a x b y⟩
  · intro a x b y hx hy
    exact ⟨_, op.transMulAdd?_eq_some a b hx hy, op.size_transMulAdd a x b y,
      vec_transMulAdd h a x b y⟩
  · exact fun x hx => ⟨_, op.addAbsCols?_eq_some hx, Column.size_tabulate _ _⟩
  · exact fun x hx => ⟨_, op.addAbsRows?_eq_some hx, Column.size_tabulate _ _⟩

end Rebalancing
