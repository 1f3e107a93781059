-- SUMMARY: The checks that inputs must pass before a program is built, in their order.
import Rebalancing.Error
import Rebalancing.Matrix.Spectrum
import Rebalancing.Settings

/-!
# Validation

Inputs are checked for size, for finite values, for their signs, and for a
covariance that is symmetric and has no eigenvalue below zero, in this order.
The first fault found is reported.
-/

namespace Rebalancing

variable {F : Type} [Scalar F]

namespace Inputs

/-! ## Single checks -/

/-- The fault of a part of the wrong size. -/
def sizeFault? (datum : Datum) (expected actual : Nat × Nat) : Option (InputError F) :=
  if expected = actual then none else some (.sizeMismatch datum expected actual)

/-- The fault of a part with a value that is not finite. -/
def finiteFault? (datum : Datum) (values : Column F) : Option (InputError F) :=
  if values.all Scalar.isFinite then none else some (.nonFinite datum)

/-- The fault of the first asset whose growth proxy is not above zero. -/
def growthFault? (growth : Column F) : Option (InputError F) :=
  (growth.findIdx? fun e => e ≤ 0).map .nonPositiveGrowth

/-- Whether two cells on opposite sides of the diagonal differ too much. -/
def isAsymmetric (tol a b : F) : Bool :=
  tol * Scalar.max (Scalar.max 1 (Scalar.abs a)) (Scalar.abs b) < Scalar.abs (a - b)

/-- The fault of the first cell above the diagonal, column by column, that
differs from the one opposite to it. A packed covariance has none. -/
def symmetryFault? (tol : F) (n : Nat) : Covariance F → Option (InputError F)
  | .packed _ => none
  | .full m =>
    (List.range n).findSome? fun c =>
      ((List.range c).find? fun r => isAsymmetric tol (m.entry r c) (m.entry c r)).map fun r =>
        .asymmetric r c

/-- The fault of a covariance with an eigenvalue below zero. -/
def definiteFault? (tol eps : F) (covariance : Covariance F) : Option (InputError F) :=
  let range := covariance.symmetrize.spectralRange eps
  if range.least < -tol * Scalar.max 1 range.maxAbs then some (.indefinite range.least) else none

/-! ## All checks -/

/-- The first fault of the inputs. -/
def fault? (inp : Inputs F) (par : Settings F) : Option (InputError F) :=
  let n := inp.assets
  (if n = 0 then some .empty else none)
  <|> sizeFault? .covariance (n, n) inp.covariance.size
  <|> sizeFault? .allocation (n, 1) (inp.allocation.size, 1)
  <|> sizeFault? .growth (n, 1) (inp.growth.size, 1)
  <|> finiteFault? .returns inp.returns
  <|> finiteFault? .covariance inp.covariance.cells
  <|> finiteFault? .riskAversion #[inp.riskAversion]
  <|> finiteFault? .coupling #[inp.coupling]
  <|> finiteFault? .allocation inp.allocation
  <|> finiteFault? .growth inp.growth
  <|> (if inp.riskAversion < 0 then some .negativeRiskAversion else none)
  <|> growthFault? inp.growth
  <|> symmetryFault? par.symTol n inp.covariance
  <|> definiteFault? par.psdTol par.solver.epsZero inp.covariance

/-- The number of assets of inputs without a fault, or their first fault. -/
def validate (inp : Inputs F) (par : Settings F) : Except (InputError F) Nat :=
  match inp.fault? par with
  | some e => .error e
  | none => .ok inp.assets

end Inputs

end Rebalancing
