-- SUMMARY: Rebalancing one period: validation, the program, its solver, and the test that the solver's answer must pass.
import Rebalancing.Event
import Rebalancing.TradeProgram
import Rebalancing.Validation

/-!
# Optimizer

A rebalance validates its inputs, states them as a program, has the program
solved, and tests the answer: entries below zero by no more than noise become
zero, and the growth proxy after the trade must be above zero with a geometric
mean that did not fall. Only then is the trade a decision.

No step has a result on data whose sizes do not match, and a solver may break
off, so a rebalance is an `Option`. A solver that does not break off and whose
answers have the length of the program's variables always leads to a report.
-/

namespace Rebalancing

variable {F : Type} [Scalar F]

/-- What a rebalance leads to. -/
structure Report (F : Type) where
  /-- The decision, or why there is none. -/
  result : Except (RebalanceError F) (Decision F)
  /-- How often the solver was called. -/
  calls : Nat
  /-- What happened, in order. -/
  log : List (Event F)

/-! ## Testing an answer -/

/-- Set entries below zero to zero, from an index on, unless one of them is
further below than `eps`. Returns what happened beside the entries. -/
def clipFrom (side : Side) (eps : F) : Nat → List F → Option (List F) × List (Event F)
  | _, [] => (some [], [])
  | i, v :: vs =>
    if v < 0 then
      if eps < -v then (none, [.entryRefused side i v])
      else
        let (rest, log) := clipFrom side eps (i + 1) vs
        (rest.map (0 :: ·), .entryClipped side i v :: log)
    else
      let (rest, log) := clipFrom side eps (i + 1) vs
      (rest.map (v :: ·), log)

/-- Set entries below zero to zero, unless one of them is further below than
`eps`. Returns what happened beside the column. -/
def clip (side : Side) (eps : F) (v : Column F) : Option (Column F) × List (Event F) :=
  let (entries, log) := clipFrom side eps 0 v.toList
  (entries.map List.toArray, log)

/-- What speaks against a growth proxy that a trade leads to: an entry that is
not above zero, or a geometric mean that fell by more than a share of `eps`. -/
def growthLoss? (eps : F) (before after : Column F) : Option (Event F) :=
  -- What is not a number is not above zero either.
  match after.findIdx? fun e => !(0 < e : Bool) with
  | some i => some (.growthRefused i (after.coord i))
  | none =>
    let g₀ := before.geometricMean
    let g := after.geometricMean
    if g₀ - eps * Scalar.max 1 g₀ ≤ g then none else some (.growthFell g₀ g)

/-- Test a trade whose entries are not below zero, and value it. -/
def appraise (inp : Inputs F) (eps : F) (trade : Trade F) :
    Option (Except (RebalanceError F) (Decision F) × List (Event F)) := do
  let growth ← trade.newGrowth? inp.growth inp.coupling
  match growthLoss? eps inp.growth growth with
  | some loss => some (.error .invalidSolution, [loss])
  | none =>
    let after ← trade.newAllocation? inp.allocation
    let objective ← objective? inp.returns inp.covariance inp.riskAversion after
    let decision : Decision F := { trade, objective }
    some (.ok decision, [.decided inp.assets decision.status objective])

/-- Turn the two columns of a solver's answer into a decision. -/
def accept (inp : Inputs F) (eps : F) (delta lam : Column F) :
    Option (Except (RebalanceError F) (Decision F) × List (Event F)) :=
  match clip .delta eps delta with
  | (none, log) => some (.error .invalidSolution, log)
  | (some delta, log) =>
    match clip .lam eps lam with
    | (none, log') => some (.error .invalidSolution, log ++ log')
    | (some lam, log') =>
      (appraise inp eps { delta, lam }).map fun (result, log'') => (result, log ++ log' ++ log'')

/-! ## Rebalancing -/

/-- What is reported of a program that was built. -/
def TradeProgram.event (p : TradeProgram F) : Event F := .built p.assets p.auxiliaries p.rows

/-- Rebalance by a solver and a method for the root of the covariance. -/
def rebalanceBy (root : RootMethod F) (par : Settings F) (solver : ConicSolver F)
    (inp : Inputs F) : Option (Report F) :=
  match inp.validate par with
  | .error e =>
    some { result := .error (.invalidInput e), calls := 0, log := [.refused e] }
  | .ok _ => do
    let program ← inp.program? root par.solver.epsZero
    match ← solver par.solver program.conic with
    | .error e =>
      some { result := .error (.ofSolver e), calls := 1, log := [program.event, .solverFailed e] }
    | .ok x =>
      let (delta, lam) ← program.split? x
      let (result, log) ← accept inp par.epsClip delta lam
      some { result, calls := 1, log := program.event :: log }

/-- Rebalance by a solver, with the root of the covariance taken through its
spectrum. -/
def rebalance : Settings F → ConicSolver F → Inputs F → Option (Report F) :=
  rebalanceBy SymMatrix.sqrt

end Rebalancing
