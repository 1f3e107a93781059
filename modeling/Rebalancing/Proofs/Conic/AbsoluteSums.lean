-- SUMMARY: Absolute sums over the rows and columns of an operator whose blocks do not overlap are those of its dense form.
import Mathlib
import Rebalancing.Proofs.Conic.OperatorMatrix

/-!
# Absolute sums of block operators

An operator adds up absolute values block by block, without a product and in an order
of its own. Where no two blocks meet in a cell, the absolute value of a cell is what
the blocks hold there in absolute value. So the sums are those over the rows and
columns of the dense form, which is read off products with unit columns.
-/

open Finset

namespace Rebalancing

/-! ## Blocks -/

namespace SymMatrix

/-- A row of a symmetric matrix reads the stored triangle down to the diagonal and then
along it. -/
theorem sum_upper_eq (m : SymMatrix ℝ) (f : ℝ → ℝ) {r : ℕ} (hr : r < m.order) :
    ∑ k ∈ range (r + 1), f (m.upper k r) +
        ∑ k ∈ range (m.order - (r + 1)), f (m.upper r (r + 1 + k)) =
      ∑ c ∈ range m.order, f (m.entry r c) := by
  have hbefore : ∀ k ∈ range (r + 1), f (m.upper k r) = f (m.entry r k) := by
    intro k hk
    have hle : k ≤ r := Nat.lt_succ_iff.mp (mem_range.mp hk)
    rw [m.entry_comm, entry, if_pos hle]
  have hafter : ∀ k ∈ range (m.order - (r + 1)),
      f (m.upper r (r + 1 + k)) = f (m.entry r (r + 1 + k)) := by
    intro k _
    rw [entry, if_pos (by omega)]
  rw [sum_congr rfl hbefore, sum_congr rfl hafter, ← sum_range_add, Nat.add_sub_cancel' hr]

end SymMatrix

namespace BlockBody

theorem addAbsRow_real (body : BlockBody ℝ) {r : ℕ} (hr : r < body.rows) (acc : ℝ) :
    body.addAbsRow r acc = acc + ∑ c ∈ range body.cols, |body.entry r c| := by
  cases body with
  | rect m =>
    rw [addAbsRow, sumTo_real]
    rfl
  | sym m =>
    rw [addAbsRow, sumFrom_real, sumTo_real, add_assoc]
    exact congrArg (acc + ·) (m.sum_upper_eq (fun a => |a|) hr)
  | unit n =>
    have hr : r < n := hr
    simp [addAbsRow, cols, entry, hr, apply_ite abs]

theorem addAbsCol_real (body : BlockBody ℝ) {c : ℕ} (hc : c < body.cols) (acc : ℝ) :
    body.addAbsCol c acc = acc + ∑ r ∈ range body.rows, |body.entry r c| := by
  cases body with
  | rect m =>
    rw [addAbsCol, sumTo_real]
    rfl
  | sym m =>
    refine ((sym m).addAbsRow_real hc acc).trans ?_
    refine congrArg (acc + ·) (sum_congr rfl fun r _ => ?_)
    exact congrArg abs (m.entry_comm c r)
  | unit n =>
    have hc : c < n := hc
    simp [addAbsCol, rows, entry, hc, apply_ite abs]

end BlockBody

namespace Block

theorem abs_sign_mul (b : Block ℝ) (a : ℝ) : |b.sign * a| = |a| := by
  unfold sign
  split <;> simp

/-- Two blocks share no cell: one ends before the other begins, by rows or by columns. -/
def Apart {F : Type} (b b' : Block F) : Prop :=
  (b.top + b.body.rows ≤ b'.top ∨ b'.top + b'.body.rows ≤ b.top) ∨
    b.left + b.body.cols ≤ b'.left ∨ b'.left + b'.body.cols ≤ b.left

theorem abs_cell_eq (b : Block ℝ) (r c : ℕ) :
    |b.cell r c| =
      if b.top ≤ r ∧ r < b.top + b.body.rows then
        if b.left ≤ c ∧ c < b.left + b.body.cols then |b.body.entry (r - b.top) (c - b.left)|
        else 0
      else 0 := by
  rw [cell_eq, apply_ite abs, apply_ite abs, abs_sign_mul, abs_zero]

section Sums

variable {b : Block ℝ} {rows cols : ℕ} (h : b.Within rows cols)

include h

theorem addAbsRow_eq_sum (r : ℕ) (acc : ℝ) :
    (if b.meetsRow r then b.body.addAbsRow (r - b.top) acc else acc) =
      acc + ∑ c ∈ range cols, |b.cell r c| := by
  simp only [abs_cell_eq, meetsRow, Bool.and_eq_true, decide_eq_true_eq]
  by_cases hr : b.top ≤ r ∧ r < b.top + b.body.rows
  · simp only [if_pos hr]
    rw [sum_stretch h.cols_le, b.body.addAbsRow_real (by omega)]
    simp only [Nat.add_sub_cancel_left]
  · simp only [if_neg hr, sum_const_zero, add_zero]

theorem addAbsCol_eq_sum (c : ℕ) (acc : ℝ) :
    (if b.meetsCol c then b.body.addAbsCol (c - b.left) acc else acc) =
      acc + ∑ r ∈ range rows, |b.cell r c| := by
  simp only [abs_cell_eq, meetsCol, Bool.and_eq_true, decide_eq_true_eq]
  by_cases hc : b.left ≤ c ∧ c < b.left + b.body.cols
  · simp only [if_pos hc]
    rw [sum_stretch h.rows_le, b.body.addAbsCol_real (by omega)]
    simp only [Nat.add_sub_cancel_left]
  · simp only [if_neg hc, ite_self, sum_const_zero, add_zero]

end Sums

variable {b b' : Block ℝ} {r c : ℕ}

theorem inside_of_cell_ne_zero (h : b.cell r c ≠ 0) :
    (b.top ≤ r ∧ r < b.top + b.body.rows) ∧ b.left ≤ c ∧ c < b.left + b.body.cols := by
  rw [cell_eq] at h
  by_contra hout
  rw [not_and_or] at hout
  rcases hout with hrow | hcol
  · rw [if_neg hrow] at h
    exact h rfl
  · rw [if_neg hcol, ite_self] at h
    exact h rfl

theorem Apart.cell_eq_zero (h : b.Apart b') (hcell : b.cell r c ≠ 0) : b'.cell r c = 0 := by
  by_contra hcell'
  have hin := inside_of_cell_ne_zero hcell
  have hin' := inside_of_cell_ne_zero hcell'
  unfold Apart at h
  omega

/-- Of blocks that lie apart at most one holds a cell. -/
theorem abs_sum_cells {blocks : List (Block ℝ)} (h : blocks.Pairwise Apart) (r c : ℕ) :
    |(blocks.map fun b => b.cell r c).sum| = (blocks.map fun b => |b.cell r c|).sum := by
  induction h with
  | nil => simp
  | @cons b blocks hb _ ih =>
    rw [List.map_cons, List.sum_cons, List.map_cons, List.sum_cons, ← ih]
    by_cases hcell : b.cell r c = 0
    · rw [hcell, abs_zero, zero_add, zero_add]
    · have hrest : (blocks.map fun b => b.cell r c).sum = 0 := by
        refine List.sum_eq_zero fun a ha => ?_
        obtain ⟨b', hb', rfl⟩ := List.mem_map.mp ha
        exact (hb b' hb').cell_eq_zero hcell
      rw [hrest, abs_zero, add_zero, add_zero]

end Block

/-! ## Operators -/

namespace Operator

/-- Every block lies inside the operator, no two blocks share a cell, and sums run
through the same blocks as products. -/
structure Tiled {F : Type} (op : Operator F) : Prop where
  within : ∀ b ∈ op.blocks, b.Within op.rows op.cols
  apart : op.blocks.Pairwise Block.Apart
  perm : op.sumOrder.Perm op.blocks

/-- The fold of an absolute sum: every block adds a share of its own. -/
theorem foldl_add_share {add : ℝ → Block ℝ → ℝ} {share : Block ℝ → ℝ} {blocks : List (Block ℝ)}
    (h : ∀ b ∈ blocks, ∀ acc, add acc b = acc + share b) (acc : ℝ) :
    blocks.foldl add acc = acc + (blocks.map share).sum := by
  induction blocks generalizing acc with
  | nil => simp
  | cons b blocks ih =>
    rw [List.foldl_cons, h b List.mem_cons_self, ih fun b' hb' => h b' (List.mem_cons_of_mem _ hb'),
      List.map_cons, List.sum_cons, add_assoc]

section Sums

variable {op : Operator ℝ} (h : op.Tiled) (x : Column ℝ)

include h

/-- The shares of the blocks in the cells of a line are the cells of the operator. -/
theorem sum_shares (line : ℕ → ℕ × ℕ) (n : ℕ) :
    (op.sumOrder.map fun b => ∑ i ∈ range n, |b.cell (line i).1 (line i).2|).sum =
      ∑ i ∈ range n, |op.entry (line i).1 (line i).2| := by
  have hsplit := sum_products (fun b i => |b.cell (line i).1 (line i).2|) 1 n op.blocks
  simp only [Pi.one_apply, mul_one] at hsplit
  rw [(h.perm.map _).sum_eq, hsplit]
  refine sum_congr rfl fun i _ => ?_
  rw [entry_real, Block.abs_sum_cells h.apart]

theorem coord_addAbsRows {r : ℕ} (hr : r < op.rows) :
    (op.addAbsRows x).coord r = x.coord r + ∑ c ∈ range op.cols, |op.entry r c| := by
  rw [addAbsRows, Column.coord_tabulate, if_pos hr, ← sum_shares h (fun c => (r, c))]
  exact foldl_add_share
    (fun b hb acc => Block.addAbsRow_eq_sum (h.within b (h.perm.mem_iff.mp hb)) r acc) _

theorem coord_addAbsCols {c : ℕ} (hc : c < op.cols) :
    (op.addAbsCols x).coord c = x.coord c + ∑ r ∈ range op.rows, |op.entry r c| := by
  rw [addAbsCols, Column.coord_tabulate, if_pos hc, ← sum_shares h (fun r => (r, c))]
  exact foldl_add_share
    (fun b hb acc => Block.addAbsCol_eq_sum (h.within b (h.perm.mem_iff.mp hb)) c acc) _

end Sums

/-! ## Dense forms -/

theorem length_dense {F : Type} [Scalar F] (op : Operator F) : op.dense.length = op.cols := by
  simp [dense]

/-- The product with a unit column lists the cells of a column. -/
theorem coord_dense {op : Operator ℝ} (h : op.Tiled) {r c : ℕ} (hr : r < op.rows)
    (hc : c < op.dense.length) : (op.dense[c]).coord r = op.entry r c := by
  have hlt : c < op.cols := op.length_dense ▸ hc
  simp only [dense, List.getElem_map, List.getElem_range]
  rw [coord_mulAdd _ _ _ _ _ hr, zero_mul, zero_add, one_mul, entry_real]
  refine congrArg List.sum (List.map_congr_left fun b hb => ?_)
  rw [Block.rowPart_eq_sum (h.within b hb), sum_eq_single_of_mem c (mem_range.mpr hlt)]
  · rw [Column.coord_tabulate, if_pos hlt, if_pos rfl, mul_one]
  · intro k _ hk
    rw [Column.coord_tabulate, if_neg hk, ite_self, mul_zero]

end Operator

/-! ## Methods and their dense forms -/

/-- The columns that the product makes of the unit columns, if it has a result on all of
them. -/
def Methods.dense? {F : Type} [Scalar F] (o : Methods F) : Option (List (Column F)) := do
  let (rows, cols) ← o.size?
  (List.range cols).mapM fun k =>
    o.mulAdd? 1 (Column.tabulate cols fun c => if c = k then 1 else 0) 0 (Column.zeros rows)

/-- The operator reports the size of its dense form. On columns of its sides the absolute
sums have a result, and add to every entry the absolute values in its row or column of the
dense form. -/
structure Methods.SumsDense (o : Methods ℝ) (rows cols : ℕ) (dense : List (Column ℝ)) : Prop where
  size_eq : o.size? = some (rows, cols)
  dense_eq : o.dense? = some dense
  length_eq : dense.length = cols
  size_col : ∀ col ∈ dense, col.size = rows
  addAbsCols : ∀ x : Column ℝ, x.size = cols →
    ∃ z, o.addAbsCols? x = some z ∧ z.size = cols ∧
      ∀ (c : ℕ) (hc : c < dense.length),
        z.coord c = x.coord c + ∑ r ∈ range rows, |(dense[c]).coord r|
  addAbsRows : ∀ x : Column ℝ, x.size = rows →
    ∃ z, o.addAbsRows? x = some z ∧ z.size = rows ∧
      ∀ r < rows, z.coord r = x.coord r + (dense.map fun col => |col.coord r|).sum

namespace Operator

/-- Every unit column has a product. -/
theorem dense?_methods (op : Operator ℝ) : op.methods.dense? = some op.dense := by
  have hall : ∀ ks : List ℕ, (ks.mapM fun k => op.mulAdd? 1
      (Column.tabulate op.cols fun c => if c = k then 1 else 0) 0 (Column.zeros op.rows)) =
      some (ks.map fun k => op.mulAdd 1
        (Column.tabulate op.cols fun c => if c = k then 1 else 0) 0 (Column.zeros op.rows)) := by
    intro ks
    induction ks with
    | nil => rfl
    | cons k ks ih =>
      rw [List.mapM_cons, ih, op.mulAdd?_eq_some 1 0 (Column.size_tabulate _ _)
        (Column.size_zeros _)]
      rfl
  exact hall (List.range op.cols)

/-- Of an operator whose blocks lie apart the absolute sums are those of its dense form. -/
theorem Tiled.sumsDense {op : Operator ℝ} (h : op.Tiled) :
    op.methods.SumsDense op.rows op.cols op.dense where
  size_eq := rfl
  dense_eq := op.dense?_methods
  length_eq := op.length_dense
  size_col := by
    intro col hcol
    obtain ⟨k, -, rfl⟩ := List.mem_map.mp hcol
    exact size_mulAdd ..
  addAbsCols x hx := by
    refine ⟨_, op.addAbsCols?_eq_some hx, Column.size_tabulate _ _, fun c hc => ?_⟩
    rw [coord_addAbsCols h x (op.length_dense ▸ hc)]
    refine congrArg (x.coord c + ·) (sum_congr rfl fun r hr => ?_)
    rw [coord_dense h (mem_range.mp hr) hc]
  addAbsRows x hx := by
    refine ⟨_, op.addAbsRows?_eq_some hx, Column.size_tabulate _ _, fun r hr => ?_⟩
    have hcells : op.dense.map (fun col => |col.coord r|) =
        (List.range op.cols).map fun c => |op.entry r c| := by
      refine List.ext_getElem (by simp [dense]) fun c hc _ => ?_
      rw [List.getElem_map, List.getElem_map, List.getElem_range, coord_dense h hr]
    rw [coord_addAbsRows h x hr, hcells]
    rfl

end Operator

end Rebalancing
