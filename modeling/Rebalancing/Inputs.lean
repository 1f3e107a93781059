-- SUMMARY: The data from which one period's trade is decided.
import Rebalancing.Covariance

/-!
# Inputs
-/

namespace Rebalancing

/-- The data from which one period's trade is decided. -/
structure Inputs (F : Type) where
  /-- Expected returns `μ` of the assets. -/
  returns : Column F
  /-- Covariance `Σ` of the returns. -/
  covariance : Covariance F
  /-- Risk aversion `κ`. -/
  riskAversion : F
  /-- Coupling `γ` of growth to what is taken from the allocation. -/
  coupling : F
  /-- Current allocation `z`. -/
  allocation : Column F
  /-- Growth proxy `R` of the assets. -/
  growth : Column F

/-- Number of assets. -/
def Inputs.assets {F : Type} (inp : Inputs F) : Nat := inp.returns.size

/-! ## Names -/

/-- A part of the inputs, by its name in messages. -/
structure Datum where
  name : String
  deriving DecidableEq, Repr

namespace Datum

def returns : Datum := ⟨"mu"⟩

def covariance : Datum := ⟨"sigma"⟩

def riskAversion : Datum := ⟨"kappa"⟩

def coupling : Datum := ⟨"gamma"⟩

def allocation : Datum := ⟨"z_curr"⟩

def growth : Datum := ⟨"growth"⟩

end Datum

end Rebalancing
