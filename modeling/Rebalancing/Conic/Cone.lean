-- SUMMARY: Products of rotated quadratic cones and an orthant: nearest points, and a function applied to whole blocks.
import Rebalancing.Column

/-!
# Product cones

The rotated quadratic cone of dimension `k` holds the columns `(a, b, v)` with
`a, b ≥ 0` and `|v| ^ 2 ≤ 2 a b`. A product cone is a sequence of such cones
followed by an orthant. Each of them is its own dual, so nearest points of the
cone and of its dual are the same.
-/

namespace Rebalancing

/-- A sequence of rotated quadratic cones followed by an orthant. -/
structure ProductCone where
  /-- Dimensions of the rotated quadratic cones. -/
  rotated : List Nat
  /-- Dimension of the orthant. -/
  orthant : Nat

/-- Number of entries of a column of the cone's space. -/
def ProductCone.dim (k : ProductCone) : Nat := k.rotated.foldr (· + ·) 0 + k.orthant

variable {F : Type} [Scalar F]

namespace Column

/-! ## Nearest points of one cone -/

/-- The nearest point of the quadratic cone: the first entry is at least the
length of the others. -/
@[specialize] def nearestQuadratic (x : Column F) : Column F :=
  let s := x.coord 0
  let len := Scalar.sqrt (sumTo (x.size - 1) fun i => x.coord (i + 1) * x.coord (i + 1))
  if len ≤ -s then
    Column.tabulate x.size fun i => if i = 0 then 0 else 0 * x.coord i
  else if len ≤ s then x
  else
    let shrink := (1 + s / len) / Scalar.two
    Column.tabulate x.size fun i =>
      if i = 0 then (len + s) / Scalar.two else shrink * x.coord i

/-- Turn the first two axes, so that the rotated quadratic cone and the
quadratic cone change places. -/
@[specialize] def turn (x : Column F) : Column F :=
  let root := Scalar.sqrt (Scalar.two : F)
  Column.tabulate x.size fun i =>
    if i = 0 then (x.coord 0 + x.coord 1) / root
    else if i = 1 then (x.coord 0 - x.coord 1) / root
    else x.coord i

/-- The nearest point of the rotated quadratic cone. In dimension one that cone
is the half line. -/
@[specialize] def nearestRotated (x : Column F) : Column F :=
  match x.size with
  | 0 => x
  | 1 => x.map fun e => Scalar.max e 0
  | _ => x.turn.nearestQuadratic.turn

end Column

namespace ProductCone

/-! ## Block by block -/

/-- Apply one function to every block of a rotated cone and another to every
entry of the orthant, from an entry of `x` on. -/
@[specialize] def mapBlocks (onBlock : Column F → Column F) (onEntry : F → F) (x : Column F) :
    Nat → List Nat → Nat → Column F
  | start, [], orthant => Column.tabulate orthant fun i => onEntry (x.coord (start + i))
  | start, k :: ks, orthant =>
    onBlock (x.slice start k) ++ mapBlocks onBlock onEntry x (start + k) ks orthant

/-- The nearest point of the cone. -/
@[specialize] def nearest (k : ProductCone) (x : Column F) : Column F :=
  mapBlocks Column.nearestRotated (fun e => Scalar.max e 0) x 0 k.rotated k.orthant

/-- Apply a function to every block that must keep one scale; entries of the
orthant each have a scale of their own and stay. -/
@[specialize] def mapGroups (k : ProductCone) (f : Column F → Column F) (x : Column F) : Column F :=
  mapBlocks f id x 0 k.rotated k.orthant

/-- Set every entry of a group to the least one. -/
def levelDown (x : Column F) : Column F :=
  Array.replicate x.size (x.least?.getD Scalar.infinity)

/-! ## Columns of other lengths -/

/-- `nearest` for the first entries of a column that is long enough; entries
beyond them stay. -/
def nearest? (k : ProductCone) (x : Column F) : Option (Column F) :=
  if k.dim ≤ x.size then some (k.nearest x ++ x.extract k.dim) else none

/-- `mapGroups` for the first entries of a column that is long enough; entries
beyond them stay. -/
def mapGroups? (k : ProductCone) (f : Column F → Column F) (x : Column F) : Option (Column F) :=
  if k.dim ≤ x.size then some (k.mapGroups f x ++ x.extract k.dim) else none

end ProductCone

end Rebalancing
