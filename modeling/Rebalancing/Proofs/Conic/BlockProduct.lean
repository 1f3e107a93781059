-- SUMMARY: Products with block operators over the reals, as sums of what each block contributes to a row or a column.
import Mathlib
import Rebalancing.Conic.Operator
import Rebalancing.Proofs.ExactScalar

/-!
# Products of block operators

A product with an operator adds up, for every row or column, what the blocks
that meet it contribute. Over the reals the order of the blocks does not show,
so an entry of a product is a factor times a sum over the blocks.
-/

namespace Rebalancing

namespace Block

/-- The sign with which the block counts. -/
def sign (b : Block ℝ) : ℝ := if b.negated then -1 else 1

theorem signed_real (b : Block ℝ) (a : ℝ) : b.signed a = a * b.sign := by
  unfold signed sign
  split <;> ring

/-- What the block contributes to a row of a product. -/
noncomputable def rowPart (b : Block ℝ) (r : ℕ) (x : Column ℝ) : ℝ :=
  if b.meetsRow r then b.sign * b.body.rowDot (r - b.top) x b.left else 0

/-- What the block contributes to a column of a transposed product. -/
noncomputable def colPart (b : Block ℝ) (c : ℕ) (x : Column ℝ) : ℝ :=
  if b.meetsCol c then b.sign * b.body.colDot (c - b.left) x b.top else 0

/-- The fold of a product: every block that is met adds its signed part. -/
theorem foldl_signed (meets : Block ℝ → Bool) (part : Block ℝ → ℝ) (a acc : ℝ)
    (blocks : List (Block ℝ)) :
    blocks.foldl (fun acc b => if meets b then b.signed a * part b + acc else acc) acc =
      acc + a * (blocks.map fun b => if meets b then b.sign * part b else 0).sum := by
  induction blocks generalizing acc with
  | nil => simp
  | cons b blocks ih =>
    rw [List.foldl_cons, ih, List.map_cons, List.sum_cons]
    cases meets b with
    | true =>
      simp only [if_true, b.signed_real]
      ring
    | false =>
      simp only [Bool.false_eq_true, if_false]
      ring

/-! ## Blocks at a place -/

section Placed

variable (top left : ℕ) (negated : Bool) (r : ℕ) (x : Column ℝ)

theorem rowPart_eq (body : BlockBody ℝ) :
    rowPart ⟨top, left, negated, body⟩ r x =
      if top ≤ r ∧ r < top + body.rows then
        (if negated then -1 else 1) * body.rowDot (r - top) x left
      else 0 := by
  simp only [rowPart, meetsRow, Bool.and_eq_true, decide_eq_true_eq, sign]

theorem rowPart_unit (n : ℕ) :
    rowPart ⟨top, left, negated, .unit n⟩ r x =
      if top ≤ r ∧ r < top + n then
        (if negated then -1 else 1) * x.coord (left + (r - top))
      else 0 :=
  rowPart_eq top left negated r x (.unit n)

theorem rowPart_sym (m : SymMatrix ℝ) :
    rowPart ⟨top, left, negated, .sym m⟩ r x =
      if top ≤ r ∧ r < top + m.order then
        (if negated then -1 else 1) * m.rowDot (r - top) x left
      else 0 :=
  rowPart_eq top left negated r x (.sym m)

theorem rowPart_rect (m : RectMatrix ℝ) :
    rowPart ⟨top, left, negated, .rect m⟩ r x =
      if top ≤ r ∧ r < top + m.rows then
        (if negated then -1 else 1) * m.rowDot (r - top) x left
      else 0 :=
  rowPart_eq top left negated r x (.rect m)

end Placed

end Block

namespace Operator

theorem coord_mulAdd (op : Operator ℝ) (a : ℝ) (x : Column ℝ) (b : ℝ) (y : Column ℝ) {r : ℕ}
    (hr : r < op.rows) :
    (op.mulAdd a x b y).coord r =
      b * y.coord r + a * (op.blocks.map fun blk => blk.rowPart r x).sum := by
  rw [mulAdd, Column.coord_tabulate, if_pos hr]
  exact Block.foldl_signed (fun blk => blk.meetsRow r)
    (fun blk => blk.body.rowDot (r - blk.top) x blk.left) a (b * y.coord r) op.blocks

theorem coord_transMulAdd (op : Operator ℝ) (a : ℝ) (x : Column ℝ) (b : ℝ) (y : Column ℝ) {c : ℕ}
    (hc : c < op.cols) :
    (op.transMulAdd a x b y).coord c =
      b * y.coord c + a * (op.blocks.map fun blk => blk.colPart c x).sum := by
  rw [transMulAdd, Column.coord_tabulate, if_pos hc]
  exact Block.foldl_signed (fun blk => blk.meetsCol c)
    (fun blk => blk.body.colDot (c - blk.left) x blk.top) a (b * y.coord c) op.blocks

end Operator

end Rebalancing
