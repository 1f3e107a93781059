-- SUMMARY: The settings of an optimizer, with their defaults.
import Rebalancing.Conic.Program

/-!
# Settings
-/

namespace Rebalancing

/-- What an optimizer tolerates, and when its solver stops. -/
structure Settings (F : Type) where
  solver : SolverSettings F
  /-- Greatest relative difference of a covariance from its transpose. -/
  symTol : F
  /-- Greatest relative size of an eigenvalue of a covariance below zero. -/
  psdTol : F
  /-- Greatest size of an entry below zero that counts as noise of the solver,
  and greatest relative loss of the geometric mean. -/
  epsClip : F

/-- The settings that hold where nothing else is said. -/
def Settings.default {F : Type} [Scalar F] : Settings F where
  solver :=
    { maxIter := some 1000000
      epsAcc := Scalar.tenToMinus 6
      epsInf := Scalar.tenToMinus 6
      epsZero := Scalar.tenToMinus 12
      logPeriod := 10000 }
  symTol := Scalar.tenToMinus 9
  psdTol := Scalar.tenToMinus 9
  epsClip := Scalar.tenToMinus 4

end Rebalancing
