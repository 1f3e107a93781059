-- SUMMARY: Allocation and growth carried from period to period.
import Rebalancing.Optimizer

/-!
# Rolling states

A rolling state holds the allocation and the growth proxy between periods. A
step rebalances from the state and, if a decision is made, moves the state on
by it.
-/

namespace Rebalancing

variable {F : Type}

/-- Allocation and growth proxy at the start of a period. -/
structure RollingState (F : Type) where
  /-- Current allocation. -/
  allocation : Column F
  /-- Current growth proxy. -/
  growth : Column F
  /-- Number of periods behind. -/
  period : Nat := 0

/-- The data of a period that the state does not hold. -/
structure Outlook (F : Type) where
  /-- Expected returns `μ`. -/
  returns : Column F
  /-- Covariance `Σ`. -/
  covariance : Covariance F
  /-- Risk aversion `κ`. -/
  riskAversion : F
  /-- Coupling `γ` of growth to what is sold. -/
  coupling : F

namespace RollingState

/-- The inputs of the next period. -/
def inputs (s : RollingState F) (o : Outlook F) : Inputs F where
  returns := o.returns
  covariance := o.covariance
  riskAversion := o.riskAversion
  coupling := o.coupling
  allocation := s.allocation
  growth := s.growth

variable [Scalar F]

/-- Move on by a trade. Returns whether the move was completed: it ends before
its first change where the allocation is not of the trade's assets, and after
the allocation where the growth proxy is not. -/
def advance (s : RollingState F) (trade : Trade F) (coupling : F) : Bool × RollingState F :=
  match trade.newAllocation? s.allocation with
  | none => (false, s)
  | some allocation =>
    match trade.newGrowth? s.growth coupling with
    | none => (false, { s with allocation })
    | some growth => (true, { allocation, growth, period := s.period + 1 })

/-- Rebalance from the state and move on by the decision. Without a decision the
state stays. -/
def step (s : RollingState F) (par : Settings F) (solver : ConicSolver F) (o : Outlook F) :
    Option (Report F) × RollingState F :=
  match rebalance par solver (s.inputs o) with
  | none => (none, s)
  | some report =>
    match report.result with
    | .error _ => (some report, s)
    | .ok decision =>
      match s.advance decision.trade o.coupling with
      | (false, s') => (none, s')
      | (true, s') => (some { report with log := report.log ++ [.advanced s'.period] }, s')

end RollingState

end Rebalancing
