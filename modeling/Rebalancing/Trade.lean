-- SUMMARY: Trades, what they make of allocation and growth, and decisions with their objective.
import Rebalancing.Error
import Rebalancing.Objective

/-!
# Trades and decisions
-/

namespace Rebalancing

variable {F : Type}

/-- A change of an allocation. -/
structure Trade (F : Type) where
  /-- What is taken from the allocation, `δ`; it adds to growth by the coupling. -/
  delta : Column F
  /-- What is added to the allocation, `λ`; it is taken from growth. -/
  lam : Column F

/-- A trade that a rebalance settled on. -/
structure Decision (F : Type) where
  /-- The trade. -/
  trade : Trade F
  /-- Expected return less risk aversion times variance, after the trade. -/
  objective : F

/-- A decision is only ever made at an optimum. -/
def Decision.status (_ : Decision F) : Status := .optimal

variable [Scalar F]

namespace Trade

/-! ## After the trade -/

/-- The allocation after the trade, `z - δ + λ`. -/
def newAllocation (t : Trade F) (z : Column F) : Column F :=
  Column.tabulate (min (min z.size t.delta.size) t.lam.size) fun i =>
    z.coord i - t.delta.coord i + t.lam.coord i

/-- The growth proxy after the trade, `R + γ δ - λ`. -/
def newGrowth (t : Trade F) (growth : Column F) (coupling : F) : Column F :=
  Column.tabulate (min (min growth.size t.delta.size) t.lam.size) fun i =>
    growth.coord i + coupling * t.delta.coord i - t.lam.coord i

/-- The change of the allocation, `λ - δ`. -/
def net (t : Trade F) : Column F :=
  Column.tabulate (min t.lam.size t.delta.size) fun i => t.lam.coord i - t.delta.coord i

/-- `newAllocation` for an allocation of the trade's assets. -/
def newAllocation? (t : Trade F) (z : Column F) : Option (Column F) :=
  if z.size = t.delta.size then some (t.newAllocation z) else none

/-- `newGrowth` for a growth proxy of the trade's assets. -/
def newGrowth? (t : Trade F) (growth : Column F) (coupling : F) : Option (Column F) :=
  if growth.size = t.delta.size then some (t.newGrowth growth coupling) else none

/-- The expected return of the new allocation, for returns and an allocation of
the trade's assets. -/
def expectedReturn? (t : Trade F) (returns z : Column F) : Option F := do
  if returns.size ≠ t.delta.size then none
  let after ← t.newAllocation? z
  some (expectedReturn returns after)

/-- The variance of the new allocation, for a covariance and an allocation of
the trade's assets. -/
def variance? (t : Trade F) (covariance : Covariance F) (z : Column F) : Option F := do
  let after ← t.newAllocation? z
  covariance.quadForm? after

end Trade

end Rebalancing
