-- SUMMARY: The binary tree of small cones that bounds the geometric mean of the growth proxy from below, as rows of a linear system.
import Rebalancing.Matrix.Rect

/-!
# Growth trees

The bound `geometric mean of (Rᵢ + γ δᵢ - λᵢ) ≥ g₀` is stated by a complete
binary tree. Its leaves are the new growth of the assets and, up to the next
power of two, the floor `g₀`. Every inner node `k` has a number `uₖ` of its own,
and a cone keeps `uₖ ^ 2` at most the product of the two nodes below it. So the
root is at most the geometric mean of the leaves, and a last row keeps it at
least at the floor.

Nodes are numbered as in a heap: node `0` is the root, the children of node `k`
are `2 k + 1` and `2 k + 2`, and the leaves follow the inner nodes. The rows of
the system are those of `s = h - G [δ; λ; u]`: for every inner node its first
child, its second child and its tip `√2 uₖ`; last the root.
-/

namespace Rebalancing

/-- The data of a bound on the geometric mean of the growth proxy: the growth
proxy `R` of the assets, its coupling `γ` to what is taken from the allocation,
and the lower bound `g₀`, which also fills the leaves beyond the assets. -/
structure GrowthTree (F : Type) where
  growth : Column F
  coupling : F
  floor : F

namespace GrowthTree

variable {F : Type}

/-- A tree for one or more assets. -/
def build? (growth : Column F) (coupling floor : F) : Option (GrowthTree F) :=
  if growth.isEmpty then none else some { growth, coupling, floor }

/-! ## Shape -/

/-- The least exponent whose power of two is at least `n`. -/
def depth (n : Nat) : Nat := if n ≤ 1 then 0 else (n - 1).log2 + 1

@[inline] def assets (t : GrowthTree F) : Nat := t.growth.size

/-- Number of leaves, the least power of two that holds every asset. -/
def leaves (t : GrowthTree F) : Nat := Nat.pow 2 (depth t.assets)

/-- Number of inner nodes, which is the number of cones. -/
def inner (t : GrowthTree F) : Nat := t.leaves - 1

/-- Number of rows: three for every inner node and one for the root. -/
def rows (t : GrowthTree F) : Nat := 3 * t.inner + 1

/-- Number of columns: two for every asset and one for every inner node. -/
def cols (t : GrowthTree F) : Nat := 2 * t.assets + t.inner

/-! ## Nodes and rows -/

/-- What stands at a node: a number of the tree, the new growth of an asset, or the
floor. -/
inductive Node where
  | inner (k : Nat)
  | asset (i : Nat)
  | padding

/-- What stands at a node of the tree. -/
def node (t : GrowthTree F) (j : Nat) : Node :=
  if j < t.inner then .inner j
  else if j - t.inner < t.assets then .asset (j - t.inner)
  else .padding

/-- What a row of the system reads: the value of a node, or the tip of the cone of
an inner node. -/
inductive Row where
  | value (node : Nat)
  | tip (k : Nat)

/-- What a row above the root row reads. -/
def coneRow (r : Nat) : Row :=
  match r % 3 with
  | 0 => .value (2 * (r / 3) + 1)
  | 1 => .value (2 * (r / 3) + 2)
  | _ => .tip (r / 3)

/-- What a row of the system reads. -/
def row (t : GrowthTree F) (r : Nat) : Row :=
  if r < 3 * t.inner then coneRow r else .value 0

variable [Scalar F]

/-! ## The linear system -/

/-- The factor of variable `c` in row `r` of `G`. -/
def coefficient (t : GrowthTree F) (r c : Nat) : F :=
  match t.row r with
  | .tip k => if c = 2 * t.assets + k then -Scalar.sqrt Scalar.two else 0
  | .value j =>
    match t.node j with
    | .inner k => if c = 2 * t.assets + k then -1 else 0
    | .asset i => if c = i then -t.coupling else if c = t.assets + i then 1 else 0
    | .padding => 0

/-- The constant that a node contributes to its row. -/
def nodeConstant (t : GrowthTree F) (j : Nat) : F :=
  match t.node j with
  | .inner _ => 0
  | .asset i => t.growth.coord i
  | .padding => t.floor

/-- The constant in row `r` of `h`; the root row is the root less the floor. -/
def constant (t : GrowthTree F) (r : Nat) : F :=
  if r < 3 * t.inner then
    match coneRow r with
    | .tip _ => 0
    | .value j => t.nodeConstant j
  else t.nodeConstant 0 - t.floor

/-- The matrix `G` over the variables `[δ; λ; u]`. -/
def matrix (t : GrowthTree F) : RectMatrix F := RectMatrix.ofFn t.rows t.cols t.coefficient

/-- The column `h`. -/
def constants (t : GrowthTree F) : Column F := Column.tabulate t.rows t.constant

@[simp] theorem rows_matrix (t : GrowthTree F) : t.matrix.rows = t.rows := rfl

@[simp] theorem cols_matrix (t : GrowthTree F) : t.matrix.cols = t.cols := rfl

@[simp] theorem size_constants (t : GrowthTree F) : t.constants.size = t.rows :=
  Column.size_tabulate _ _

/-! ## Tight values -/

/-- The value at node `j` when every inner node holds the geometric mean of its
two children. -/
def tightValue (inner : Nat) (leaf : Nat → F) (j : Nat) : F :=
  if j < inner then
    Scalar.sqrt (tightValue inner leaf (2 * j + 1) * tightValue inner leaf (2 * j + 2))
  else leaf (j - inner)
termination_by 2 * inner + 1 - j

/-- The largest numbers of the inner nodes for given leaves of the assets; the
other leaves hold `pad`. -/
def tight (t : GrowthTree F) (leaves : Column F) (pad : F) : Column F :=
  let leaf i := if i < t.assets then leaves.coord i else pad
  Column.tabulate t.inner (tightValue t.inner leaf)

/-- The largest numbers of the inner nodes; there must be one leaf for every
asset. -/
def tight? (t : GrowthTree F) (leaves : Column F) (pad : F) : Option (Column F) :=
  if leaves.size = t.assets then some (t.tight leaves pad) else none

end GrowthTree

end Rebalancing
