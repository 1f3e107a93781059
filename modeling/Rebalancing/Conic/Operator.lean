-- SUMMARY: Linear operators made of blocks placed in a rectangle: products from both sides and absolute sums by row and by column.
import Rebalancing.Matrix.Rect
import Rebalancing.Matrix.Sym

/-!
# Block operators

An operator is a rectangle of numbers given by blocks: matrices, or identities,
each at a place and possibly negated; what no block covers is zero. An operator
is used through products from both sides and through absolute sums. Every
number of a result is a sum over the blocks that meet its row or column, in
the order in which the operator lists them.
-/

namespace Rebalancing

variable {F : Type}

/-! ## Blocks -/

/-- What fills a block: a matrix, or the identity of an order. -/
inductive BlockBody (F : Type) where
  | rect (m : RectMatrix F)
  | sym (m : SymMatrix F)
  | unit (order : Nat)

/-- A filled rectangle of an operator, whose first row and column are the
operator's row `top` and column `left`. -/
structure Block (F : Type) where
  top : Nat
  left : Nat
  /-- Whether the block counts with the opposite sign. -/
  negated : Bool
  body : BlockBody F

namespace BlockBody

@[inline] def rows : BlockBody F → Nat
  | rect m => m.rows
  | sym m => m.order
  | unit n => n

@[inline] def cols : BlockBody F → Nat
  | rect m => m.cols
  | sym m => m.order
  | unit n => n

variable [Scalar F]

def entry : BlockBody F → Nat → Nat → F
  | rect m, r, c => m.entry r c
  | sym m, r, c => m.entry r c
  | unit _, r, c => if r = c then 1 else 0

/-- The product of row `r` with the entries of `x` that start at `start`. -/
@[specialize] def rowDot (body : BlockBody F) (r : Nat) (x : Column F) (start : Nat) : F :=
  match body with
  | rect m => m.rowDot r x start
  | sym m => m.rowDot r x start
  | unit _ => x.coord (start + r)

/-- The product of column `c` with the entries of `x` that start at `start`. -/
@[specialize] def colDot (body : BlockBody F) (c : Nat) (x : Column F) (start : Nat) : F :=
  match body with
  | rect m => m.colDot c x start
  | sym m => m.rowDot c x start
  | unit _ => x.coord (start + c)

/-- Add to `acc` the absolute values in row `r`. -/
def addAbsRow (body : BlockBody F) (r : Nat) (acc : F) : F :=
  match body with
  | rect m => acc + sumTo m.cols fun c => Scalar.abs (m.entry r c)
  | sym m =>
    sumFrom (acc + sumTo (r + 1) fun k => Scalar.abs (m.upper k r)) (m.order - (r + 1)) fun k =>
      Scalar.abs (m.upper r (r + 1 + k))
  | unit _ => acc + 1

/-- Add to `acc` the absolute values in column `c`. -/
def addAbsCol (body : BlockBody F) (c : Nat) (acc : F) : F :=
  match body with
  | rect m => acc + sumTo m.rows fun r => Scalar.abs (m.entry r c)
  | sym m => (sym m).addAbsRow c acc
  | unit _ => acc + 1

end BlockBody

namespace Block

/-- Whether the block meets a row of the operator. -/
@[inline] def meetsRow (b : Block F) (r : Nat) : Bool := b.top ≤ r && r < b.top + b.body.rows

/-- Whether the block meets a column of the operator. -/
@[inline] def meetsCol (b : Block F) (c : Nat) : Bool := b.left ≤ c && c < b.left + b.body.cols

/-- A factor with the sign of the block. -/
@[inline] def signed [Scalar F] (b : Block F) (a : F) : F := if b.negated then -a else a

end Block

/-! ## Operators -/

structure Operator (F : Type) where
  rows : Nat
  cols : Nat
  /-- The blocks, in the order in which products add them up. -/
  blocks : List (Block F)
  /-- The blocks, in the order in which absolute sums add them up. -/
  sumOrder : List (Block F) := blocks

namespace Operator

variable [Scalar F]

/-- The cell in a row and a column: the signed sum of what the blocks hold there. -/
def entry (op : Operator F) (r c : Nat) : F :=
  op.blocks.foldl (fun acc b =>
    if b.meetsRow r && b.meetsCol c then acc + b.signed (b.body.entry (r - b.top) (c - b.left))
    else acc) 0

/-- The column `a * M * x + b * y` for the operator's matrix `M`. -/
@[specialize] def mulAdd (op : Operator F) (a : F) (x : Column F) (b : F) (y : Column F) :
    Column F :=
  Column.tabulate op.rows fun r =>
    op.blocks.foldl (fun acc blk =>
      if blk.meetsRow r then blk.signed a * blk.body.rowDot (r - blk.top) x blk.left + acc
      else acc) (b * y.coord r)

@[simp] theorem size_mulAdd (op : Operator F) (a : F) (x : Column F) (b : F) (y : Column F) :
    (op.mulAdd a x b y).size = op.rows := by
  simp [mulAdd]

/-- The column `a * Mᵀ * x + b * y` for the operator's matrix `M`. -/
@[specialize] def transMulAdd (op : Operator F) (a : F) (x : Column F) (b : F) (y : Column F) :
    Column F :=
  Column.tabulate op.cols fun c =>
    op.blocks.foldl (fun acc blk =>
      if blk.meetsCol c then blk.signed a * blk.body.colDot (c - blk.left) x blk.top + acc
      else acc) (b * y.coord c)

@[simp] theorem size_transMulAdd (op : Operator F) (a : F) (x : Column F) (b : F)
    (y : Column F) : (op.transMulAdd a x b y).size = op.cols := by
  simp [transMulAdd]

/-- Add to every entry of `x` the absolute values in its row. -/
def addAbsRows (op : Operator F) (x : Column F) : Column F :=
  Column.tabulate op.rows fun r =>
    op.sumOrder.foldl (fun acc b =>
      if b.meetsRow r then b.body.addAbsRow (r - b.top) acc else acc) (x.coord r)

/-- Add to every entry of `x` the absolute values in its column. -/
def addAbsCols (op : Operator F) (x : Column F) : Column F :=
  Column.tabulate op.cols fun c =>
    op.sumOrder.foldl (fun acc b =>
      if b.meetsCol c then b.body.addAbsCol (c - b.left) acc else acc) (x.coord c)

/-! ## Columns of other lengths -/

omit [Scalar F] in
/-- Whether a column can stand on a side of a dimension: exactly one entry on a
side of dimension one, and at least as many as the dimension on any other. -/
def fits (dim : Nat) (x : Column F) : Bool :=
  if dim = 1 then x.size = 1 else dim ≤ x.size

omit [Scalar F] in
/-- Replace the entries of `y` that belong to a side; entries beyond it stay. -/
def keepRest (y image : Column F) : Column F := image ++ y.extract image.size

/-- `mulAdd` on columns that fit; there is no result for others. -/
def mulAdd? (op : Operator F) (a : F) (x : Column F) (b : F) (y : Column F) : Option (Column F) :=
  if fits op.cols x && fits op.rows y then some (keepRest y (op.mulAdd a x b y)) else none

/-- `transMulAdd` on columns that fit; there is no result for others. -/
def transMulAdd? (op : Operator F) (a : F) (x : Column F) (b : F) (y : Column F) :
    Option (Column F) :=
  if fits op.rows x && fits op.cols y then some (keepRest y (op.transMulAdd a x b y)) else none

/-- `addAbsRows` on a column that fits; there is no result for another. -/
def addAbsRows? (op : Operator F) (x : Column F) : Option (Column F) :=
  if fits op.rows x then some (keepRest x (op.addAbsRows x)) else none

/-- `addAbsCols` on a column that fits; there is no result for another. -/
def addAbsCols? (op : Operator F) (x : Column F) : Option (Column F) :=
  if fits op.cols x then some (keepRest x (op.addAbsCols x)) else none

/-- The operator's columns: its products with the unit columns. -/
def dense (op : Operator F) : List (Column F) :=
  (List.range op.cols).map fun k =>
    op.mulAdd 1 (Column.tabulate op.cols fun c => if c = k then 1 else 0) 0 (Column.zeros op.rows)

end Operator

end Rebalancing
