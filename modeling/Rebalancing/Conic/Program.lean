-- SUMMARY: Conic linear programs, what a solver of them is, and the ways in which one fails.
import Rebalancing.Conic.Cone
import Rebalancing.Conic.Operator

/-!
# Conic linear programs

A conic linear program asks for a column `x` that minimises `cᵀ x` while
`b - A x` lies in a product cone. The library states its decision as such a
program and leaves it to a solver, which is any function from programs to
results.
-/

namespace Rebalancing

/-! ## Programs -/

/-- Minimise `cᵀ x` subject to `b - A x` in a cone. -/
structure ConicProgram (F : Type) where
  /-- The cost `c`, one column. -/
  cost : Operator F
  /-- The matrix `A`. -/
  system : Operator F
  /-- The right-hand side `b`, one column. -/
  rightHand : Operator F
  cone : ProductCone

/-- Number of scalars that the first-order solver keeps at a time, for a program
with `m` rows and `n` variables. -/
def ConicProgram.workLength {F : Type} (p : ConicProgram F) : Nat :=
  let m := p.system.rows
  let n := p.system.cols
  4 * (n + 2 * m + 1) + 2 * (n + m + 1)

/-! ## Solvers -/

/-- When a solver stops. -/
structure SolverSettings (F : Type) where
  /-- Greatest number of steps; `none` for no limit. -/
  maxIter : Option Nat
  /-- Residuals at most this large count as none. -/
  epsAcc : F
  /-- A certificate at most this far off counts as one. -/
  epsInf : F
  /-- A number at most this large counts as zero. -/
  epsZero : F
  /-- Number of steps between two reports of progress. -/
  logPeriod : Nat

/-- The ways in which a solver fails. -/
inductive SolverError where
  /-- A direction lowers the cost without end. -/
  | unbounded
  /-- No point satisfies the constraints. -/
  | infeasible
  /-- The steps ran out. -/
  | excessIter
  /-- The sizes of the program do not match. -/
  | invalidOp
  /-- The memory handed over is too small. -/
  | workShortage
  /-- The cone refused a column. -/
  | coneFailure
  deriving DecidableEq, Repr

def SolverError.message : SolverError → String
  | unbounded => "Unbounded: found an unbounded certificate"
  | infeasible => "Infeasible: found an infeasibile certificate"
  | excessIter => "ExcessIter: exceed max iterations"
  | invalidOp => "InvalidOp: invalid Operator"
  | workShortage => "WorkShortage: shortage of work slice length"
  | coneFailure => "ConeFailure: failure caused by Cone"

/-- A solver returns an optimal `x` of a program or says how it failed. It has no
result where it breaks off, on settings that it was not made for. -/
abbrev ConicSolver (F : Type) :=
  SolverSettings F → ConicProgram F → Option (Except SolverError (Column F))

end Rebalancing
