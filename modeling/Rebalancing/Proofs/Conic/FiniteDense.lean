-- SUMMARY: The dense form of an operator whose blocks do not overlap is finite exactly if the cells of its blocks are.
import Mathlib
import Rebalancing.Proofs.Conic.AbsoluteSums
import Rebalancing.Proofs.RoundedScalar

/-!
# Finite dense forms

The dense form of an operator is read off products with unit columns. Over rounded
scalars such a product multiplies every cell of a row by zero or one and adds up. As
long as all cells are finite nothing is rounded: what is left is the one cell that the
unit column selects. A cell that is not finite shows, because nothing that is added to
or multiplied by it makes it finite again.
-/

namespace Rebalancing

open RoundedScalar

variable {F : Type} [Scalar F]

/-- Every cell of the block is finite. -/
def BlockBody.AllFinite (body : BlockBody F) : Prop :=
  ∀ r < body.rows, ∀ c < body.cols, Scalar.isFinite (body.entry r c) = true

/-- Every entry of the dense form is finite. -/
def Operator.AllFinite (op : Operator F) : Prop :=
  ∀ col ∈ op.dense, ∀ e ∈ col, Scalar.isFinite e = true

/-- The column that selects one column of a matrix. -/
def Column.unit (n k : ℕ) : Column F := Column.tabulate n fun c => if c = k then 1 else 0

variable [RoundedScalar F]

theorem Column.coord_unit {n k i : ℕ} (hi : i < n) :
    Exactly (if i = k then 1 else 0) ((Column.unit n k : Column F).coord i) := by
  rw [unit, Column.coord_tabulate, if_pos hi]
  split
  · exact exactly_one
  · exact exactly_zero

/-! ## Blocks -/

namespace BlockBody

variable {body : BlockBody F} {r : ℕ} {cols start k : ℕ}

/-- The product of one cell with an entry of a unit column. -/
theorem exactly_cell {a : F} (ha : Scalar.isFinite a = true) (hcols : start < cols) :
    Exactly (if start = k then value a else 0)
      (a * (Column.unit cols k : Column F).coord start) := by
  have hunit := Column.coord_unit (F := F) (k := k) hcols
  have hproduct := (exactly_value ha).mul_exactly hunit ?_
  · rwa [mul_ite, mul_one, mul_zero] at hproduct
  · rw [mul_ite, mul_one, mul_zero]
    split
    · exact isBound_value ha
    · exact isBound_zero

/-- A row of finite cells times a unit column is the cell that the column selects. -/
theorem exactly_rowDot (h : body.AllFinite) (hr : r < body.rows)
    (hcols : start + body.cols ≤ cols) :
    Exactly (if start ≤ k ∧ k < start + body.cols then value (body.entry r (k - start)) else 0)
      (body.rowDot r (Column.unit cols k) start) := by
  have hcell : ∀ c < body.cols, Exactly
      (if start + c = k then value (body.entry r (k - start)) else 0)
      (body.entry r c * (Column.unit cols k : Column F).coord (start + c)) := by
    intro c hc
    have hproduct := exactly_cell (k := k) (h r hr c hc) (show start + c < cols by omega)
    by_cases hk : start + c = k
    · have hindex : k - start = c := by omega
      rw [if_pos hk] at hproduct ⊢
      rwa [hindex]
    · rwa [if_neg hk] at hproduct ⊢
  cases body with
  | rect m => exact exactly_sumTo hcell
  | sym m => exact exactly_sumTo hcell
  | unit n =>
    have hr : r < n := hr
    have hcols : start + n ≤ cols := hcols
    have hunit := Column.coord_unit (F := F) (k := k) (show start + r < cols by omega)
    have hcell : (if start ≤ k ∧ k < start + n then
        value ((unit n : BlockBody F).entry r (k - start)) else 0) =
          if start + r = k then 1 else 0 := by
      by_cases hk : start + r = k
      · rw [if_pos hk, if_pos (by omega), entry, if_pos (by omega), value_one]
      · rw [if_neg hk, entry]
        split
        · rw [if_neg (by omega), value_zero]
        · rfl
    exact hcell ▸ hunit

/-- A finite product with a row has only finite cells in it. -/
theorem isFinite_of_rowDot {x : Column F} (h : Scalar.isFinite (body.rowDot r x start) = true) :
    ∀ c < body.cols, Scalar.isFinite (body.entry r c) = true := by
  intro c hc
  cases body with
  | rect m => exact (isFinite_of_mul (isFinite_of_sumTo h c hc)).1
  | sym m => exact (isFinite_of_mul (isFinite_of_sumTo h c hc)).1
  | unit n =>
    rw [entry]
    split
    · exact isFinite_one
    · exact isFinite_zero

end BlockBody

namespace Block

variable (b : Block F) (r k : ℕ)

/-- What the block holds in a cell of its operator, as a number. -/
noncomputable def cellValue : ℝ :=
  if b.top ≤ r ∧ r < b.top + b.body.rows then
    if b.left ≤ k ∧ k < b.left + b.body.cols then
      (if b.negated then -1 else 1) * value (b.body.entry (r - b.top) (k - b.left))
    else 0
  else 0

/-- One step of a product with a unit column: the block adds its cell if it meets the row. -/
def addRow (cols : ℕ) (acc : F) : F :=
  if b.meetsRow r then
    b.signed 1 * b.body.rowDot (r - b.top) (Column.unit cols k) b.left + acc
  else acc

variable {b r k}

theorem Apart.cellValue_eq_zero {b' : Block F} (h : b.Apart b') (hcell : b.cellValue r k ≠ 0) :
    b'.cellValue r k = 0 := by
  by_contra hcell'
  simp only [cellValue, ne_eq, ite_eq_right_iff, Classical.not_imp] at hcell hcell'
  obtain ⟨hrow, hcol, -⟩ := hcell
  obtain ⟨hrow', hcol', -⟩ := hcell'
  unfold Apart at h
  omega

theorem exactly_signed_mul {x : F} {v : ℝ} (hx : Exactly v x) :
    Exactly ((if b.negated then -1 else 1) * v) (b.signed 1 * x) := by
  unfold signed
  split
  · refine exactly_one.neg.mul_exactly hx ?_
    rw [neg_one_mul]
    exact hx.isBound.neg
  · refine exactly_one.mul_exactly hx ?_
    rw [one_mul]
    exact hx.isBound

omit [Scalar F] [RoundedScalar F] in
theorem meetsRow_iff : b.meetsRow r = true ↔ b.top ≤ r ∧ r < b.top + b.body.rows := by
  simp [meetsRow]

/-- What a block adds is exact where it meets nothing or is added to nothing. -/
theorem exactly_addRow {rows cols : ℕ} (hwithin : b.Within rows cols) (hcells : b.body.AllFinite)
    {acc : F} {a : ℝ} (hacc : Exactly a acc) (h : b.cellValue r k = 0 ∨ a = 0) :
    Exactly (b.cellValue r k + a) (b.addRow r k cols acc) := by
  unfold addRow
  by_cases hmeets : b.top ≤ r ∧ r < b.top + b.body.rows
  · have hrow := b.body.exactly_rowDot (k := k) hcells (r := r - b.top) (by omega) hwithin.cols_le
    have hpart := exactly_signed_mul (b := b) hrow
    rw [mul_ite, mul_zero] at hpart
    rw [cellValue, if_pos hmeets] at h ⊢
    rw [if_pos (meetsRow_iff.mpr hmeets)]
    exact hpart.add_exactly hacc h
  · rw [cellValue, if_neg hmeets, zero_add, if_neg (mt meetsRow_iff.mp hmeets)]
    exact hacc

/-- A finite sum leaves nothing that is not finite behind. -/
theorem isFinite_of_addRow {cols : ℕ} {acc : F}
    (h : Scalar.isFinite (b.addRow r k cols acc) = true) :
    Scalar.isFinite acc = true ∧ (b.top ≤ r ∧ r < b.top + b.body.rows →
      ∀ c < b.body.cols, Scalar.isFinite (b.body.entry (r - b.top) c) = true) := by
  unfold addRow at h
  by_cases hmeets : b.top ≤ r ∧ r < b.top + b.body.rows
  · rw [if_pos (meetsRow_iff.mpr hmeets)] at h
    obtain ⟨hpart, hacc⟩ := isFinite_of_add h
    exact ⟨hacc, fun _ => BlockBody.isFinite_of_rowDot (isFinite_of_mul hpart).2⟩
  · rw [if_neg (mt meetsRow_iff.mp hmeets)] at h
    exact ⟨h, fun hin => absurd hin hmeets⟩

/-! ## Folds over blocks -/

section Folds

variable {blocks : List (Block F)} {rows cols : ℕ}

/-- Blocks that lie apart are added exactly, because at most one of them meets a cell. -/
theorem isFinite_foldl_addRow (hwithin : ∀ b ∈ blocks, b.Within rows cols)
    (hcells : ∀ b ∈ blocks, b.body.AllFinite) (hapart : blocks.Pairwise Apart) {acc : F} {a : ℝ}
    (hacc : Exactly a acc) (h : a = 0 ∨ ∀ b ∈ blocks, b.cellValue r k = 0) :
    Scalar.isFinite (blocks.foldl (fun acc b => b.addRow r k cols acc) acc) = true := by
  induction blocks generalizing acc a with
  | nil => exact hacc.isFinite
  | cons b blocks ih =>
    obtain ⟨hb, hrest⟩ := List.pairwise_cons.mp hapart
    have hzero : b.cellValue r k = 0 ∨ a = 0 :=
      h.elim .inr fun hall => .inl (hall b List.mem_cons_self)
    refine ih (fun b' hb' => hwithin b' (List.mem_cons_of_mem _ hb'))
      (fun b' hb' => hcells b' (List.mem_cons_of_mem _ hb')) hrest
      (exactly_addRow (hwithin b List.mem_cons_self) (hcells b List.mem_cons_self) hacc hzero) ?_
    by_cases hcell : b.cellValue r k = 0
    · rw [hcell, zero_add]
      exact h.imp_right fun hall b' hb' => hall b' (List.mem_cons_of_mem _ hb')
    · exact .inr fun b' hb' => (hb b' hb').cellValue_eq_zero hcell

theorem isFinite_of_foldl_addRow {acc : F}
    (h : Scalar.isFinite (blocks.foldl (fun acc b => b.addRow r k cols acc) acc) = true) :
    Scalar.isFinite acc = true ∧ ∀ b ∈ blocks, b.top ≤ r ∧ r < b.top + b.body.rows →
      ∀ c < b.body.cols, Scalar.isFinite (b.body.entry (r - b.top) c) = true := by
  induction blocks generalizing acc with
  | nil => exact ⟨h, fun b hb => absurd hb List.not_mem_nil⟩
  | cons b blocks ih =>
    obtain ⟨hstep, hrest⟩ := ih h
    obtain ⟨hacc, hb⟩ := isFinite_of_addRow hstep
    refine ⟨hacc, fun b' hb' => ?_⟩
    rcases List.mem_cons.mp hb' with rfl | hmem
    · exact hb
    · exact hrest b' hmem

end Folds

end Block

/-! ## Operators -/

namespace Operator

variable {op : Operator F} {r k : ℕ}

omit [RoundedScalar F] in
/-- An entry of the dense form is what the blocks leave when they are added one by one. -/
theorem allFinite_iff_foldl : op.AllFinite ↔ ∀ k < op.cols, ∀ r < op.rows,
    Scalar.isFinite (op.blocks.foldl (fun acc b => b.addRow r k op.cols acc)
      (0 * (Column.zeros op.rows : Column F).coord r)) = true := by
  have hcoord : ∀ {k r}, r < op.rows →
      (op.mulAdd 1 (Column.unit op.cols k) 0 (Column.zeros op.rows)).coord r =
        op.blocks.foldl (fun acc b => b.addRow r k op.cols acc)
          (0 * (Column.zeros op.rows : Column F).coord r) := by
    intro k r hr
    rw [mulAdd, Column.coord_tabulate, if_pos hr]
    rfl
  simp only [AllFinite, dense, List.forall_mem_map, List.mem_range]
  refine forall₂_congr fun k _ => ?_
  rw [Column.forall_mem_iff _ fun e => Scalar.isFinite e = true, size_mulAdd]
  refine forall₂_congr fun r hr => ?_
  rw [← hcoord hr]
  rfl

/-- The dense form of blocks that lie apart is finite exactly if their cells are. -/
theorem Tiled.allFinite_iff (h : op.Tiled) :
    op.AllFinite ↔ ∀ b ∈ op.blocks, b.body.AllFinite := by
  rw [allFinite_iff_foldl]
  constructor
  · intro hfinite b hb r hr c hc
    obtain ⟨hrows, hcols⟩ := h.within b hb
    obtain ⟨-, hcells⟩ := Block.isFinite_of_foldl_addRow (hfinite (b.left + c) (by omega)
      (b.top + r) (by omega))
    have hcell := hcells b hb (by omega) c hc
    rwa [Nat.add_sub_cancel_left] at hcell
  · intro hcells k hk r hr
    have hstart : Exactly 0 (0 * (Column.zeros op.rows : Column F).coord r) := by
      rw [Column.coord_zeros, ← mul_zero (0 : ℝ)]
      refine exactly_zero.mul_exactly exactly_zero ?_
      rw [mul_zero]
      exact isBound_zero
    exact Block.isFinite_foldl_addRow h.within hcells h.apart hstart (.inl rfl)

end Operator

end Rebalancing
