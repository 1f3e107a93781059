-- SUMMARY: The geometric mean of a column, through logarithms.
import Rebalancing.Column

/-!
# Geometric mean
-/

namespace Rebalancing

/-- The geometric mean, as the exponential of the mean of the logarithms. The
empty column has none. -/
def Column.geometricMean {F : Type} [Scalar F] (v : Column F) : F :=
  if v.isEmpty then Scalar.nan
  else Scalar.exp ((sumTo v.size fun i => Scalar.log (v.coord i)) / Scalar.ofCount v.size)

end Rebalancing
