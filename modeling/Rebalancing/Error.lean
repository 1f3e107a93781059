-- SUMMARY: Why inputs are refused and why a rebalance fails, with the texts of both.
import Rebalancing.Conic.Program
import Rebalancing.Inputs
import Rebalancing.Text.Numeral

/-!
# Errors

Inputs are refused before any solver runs; a rebalance fails for refused inputs,
for what its solver reports, or because the solver's answer does not hold up.
-/

namespace Rebalancing

/-! ## Statuses -/

/-- How a rebalance ended. -/
inductive Status where
  | optimal
  | infeasible
  | unbounded
  /-- The solver failed, or its answer does not hold up. -/
  | solverError
  deriving DecidableEq, Repr

def Status.text : Status → String
  | optimal => "Optimal"
  | infeasible => "Infeasible"
  | unbounded => "Unbounded"
  | solverError => "SolverError"

/-! ## Refused inputs -/

/-- Why inputs are refused. -/
inductive InputError (F : Type) where
  /-- There are no assets. -/
  | empty
  | sizeMismatch (datum : Datum) (expected actual : Nat × Nat)
  | nonFinite (datum : Datum)
  | negativeRiskAversion
  /-- The covariance differs from its transpose. -/
  | asymmetric (row col : Nat)
  /-- The covariance has an eigenvalue below zero. -/
  | indefinite (least : F)
  | nonPositiveGrowth (index : Nat)

def InputError.message : InputError Float → String
  | empty => "no assets"
  | sizeMismatch datum expected actual =>
    s!"{datum.name} is {actual.1} x {actual.2}, expected {expected.1} x {expected.2}"
  | nonFinite datum => s!"{datum.name} contains a non-finite value"
  | negativeRiskAversion => "risk aversion is negative"
  | asymmetric row col => s!"covariance is not symmetric at ({row}, {col})"
  | indefinite least =>
    "covariance is not positive semidefinite: min eigenvalue " ++ Numeral.message least
  | nonPositiveGrowth index => s!"growth proxy at {index} is not strictly positive"

/-! ## Failed rebalances -/

/-- Why a rebalance fails. -/
inductive RebalanceError (F : Type) where
  /-- The inputs are refused; no solver has run. -/
  | invalidInput (e : InputError F)
  /-- No trade keeps the geometric mean of the growth proxy. -/
  | infeasible
  /-- The objective has no finite maximum. -/
  | unbounded
  /-- The solver failed in another way. -/
  | solverFailure (e : SolverError)
  /-- The solver's answer is not an admissible trade. -/
  | invalidSolution

namespace RebalanceError

variable {F : Type}

/-- What a solver's failure means for the rebalance. -/
def ofSolver : SolverError → RebalanceError F
  | .infeasible => infeasible
  | .unbounded => unbounded
  | e => solverFailure e

/-- How the rebalance ended; refused inputs have no status. -/
def status? : RebalanceError F → Option Status
  | invalidInput _ => none
  | infeasible => some .infeasible
  | unbounded => some .unbounded
  | solverFailure _ => some .solverError
  | invalidSolution => some .solverError

def message : RebalanceError Float → String
  | invalidInput e => "InvalidInput: " ++ e.message
  | infeasible => "Infeasible: no trade keeps the geometric mean of the growth proxy"
  | unbounded => "Unbounded: objective has no finite maximum, bound the trade size"
  | solverFailure e => "SolverError: " ++ e.message
  | invalidSolution =>
    "SolverError: returned decision is negative or decreases the geometric mean of the growth proxy"

end RebalanceError

end Rebalancing
