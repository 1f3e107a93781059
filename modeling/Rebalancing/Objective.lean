-- SUMMARY: What a trade is judged by: expected return less risk aversion times variance.
import Rebalancing.Inputs

/-!
# Objective
-/

namespace Rebalancing

variable {F : Type} [Scalar F]

/-- The expected return of an allocation, over the assets that both columns have. -/
def expectedReturn (returns z : Column F) : F :=
  sumTo (min returns.size z.size) fun i => returns.coord i * z.coord i

/-- Expected return less risk aversion times variance. -/
def objective (returns : Column F) (covariance : Covariance F) (riskAversion : F)
    (z : Column F) : F :=
  expectedReturn returns z - riskAversion * covariance.quadForm z

/-- `objective` for an allocation of the same assets. -/
def objective? (returns : Column F) (covariance : Covariance F) (riskAversion : F)
    (z : Column F) : Option F :=
  if returns.size = z.size ∧ covariance.size = (z.size, z.size) then
    some (objective returns covariance riskAversion z)
  else none

/-- The objective when nothing is traded. -/
def Inputs.zeroTradeObjective? (inp : Inputs F) : Option F :=
  objective? inp.returns inp.covariance inp.riskAversion inp.allocation

end Rebalancing
