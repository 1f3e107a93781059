-- SUMMARY: The decision of one period as a conic linear program, and trades read off its solutions.
import Rebalancing.Conic.Program
import Rebalancing.GeometricMean
import Rebalancing.GrowthTree
import Rebalancing.Inputs
import Rebalancing.Matrix.Spectrum

/-!
# Trade programs

A trade takes `δ ≥ 0` from an allocation and adds `λ ≥ 0` to it, which turns the
growth proxy `R` into `R + γ δ - λ`. The best trade maximises expected return
less `κ` times variance, while the geometric mean of the growth proxy does not
fall. With `S = √(2 κ) Σ^½` and the rows `G`, `h` of a growth tree it is the
program

    minimise    μᵀ δ - μᵀ λ + t
    subject to  (1, t, S (z - δ + λ))   in a rotated quadratic cone
                h - G [δ; λ; u]         in the cones of the tree and the half line
                δ, λ                    in the orthant

over `[δ; λ; u; t]`.
-/

namespace Rebalancing

variable {F : Type} [Scalar F]

/-- The data of the program of one period: the expected returns `μ`, the scaled root
`S` of the covariance, its product `S z` with the current allocation, and the
tree that bounds the geometric mean of the growth proxy. -/
structure TradeProgram (F : Type) where
  returns : Column F
  riskRoot : SymMatrix F
  riskNow : Column F
  tree : GrowthTree F

namespace TradeProgram

/-! ## Building -/

/-- The program for some assets, with the root of the covariance taken by a
method. -/
def buildBy (root : RootMethod F) (returns : Column F) (covariance : SymMatrix F)
    (riskAversion coupling : F) (allocation growth : Column F) (epsZero : F) : TradeProgram F :=
  let riskRoot := (root covariance epsZero).scale (Scalar.sqrt (riskAversion + riskAversion))
  { returns
    riskRoot
    riskNow := Column.tabulate returns.size fun r => riskRoot.rowDot r allocation 0
    tree := { growth, coupling, floor := growth.geometricMean } }

/-- `buildBy` for one or more assets, when every part is about the same
assets. -/
def buildBy? (root : RootMethod F) (returns : Column F) (covariance : SymMatrix F)
    (riskAversion coupling : F) (allocation growth : Column F) (epsZero : F) :
    Option (TradeProgram F) :=
  let n := returns.size
  if 0 < n && covariance.order = n && allocation.size = n && growth.size = n then
    some (buildBy root returns covariance riskAversion coupling allocation growth epsZero)
  else none

/-- The program for one or more assets, when every part is about the same
assets, with the root of the covariance taken through its spectrum. -/
def build? : Column F → SymMatrix F → F → F → Column F → Column F → F →
    Option (TradeProgram F) :=
  buildBy? SymMatrix.sqrt

/-! ## Shape -/

@[inline] def assets (p : TradeProgram F) : Nat := p.returns.size

/-- Number of auxiliary variables `u`. -/
@[inline] def auxiliaries (p : TradeProgram F) : Nat := p.tree.inner

def rows (p : TradeProgram F) : Nat := (2 + p.assets) + p.tree.rows + 2 * p.assets

def cols (p : TradeProgram F) : Nat := 2 * p.assets + p.auxiliaries + 1

/-! ## The conic program -/

/-- The cost `c`. -/
def cost (p : TradeProgram F) : Operator F where
  rows := p.cols
  cols := 1
  blocks :=
    [{ top := 0, left := 0, negated := false, body := .rect (.ofColumn p.returns) },
     { top := p.assets, left := 0, negated := true, body := .rect (.ofColumn p.returns) },
     { top := 2 * p.assets + p.auxiliaries, left := 0, negated := false, body := .unit 1 }]

/-- The matrix `A`. -/
def system (p : TradeProgram F) : Operator F :=
  let n := p.assets
  let orthant := (2 + n) + p.tree.rows
  { rows := p.rows
    cols := p.cols
    blocks :=
      [{ top := 2 + n, left := 0, negated := false, body := .rect p.tree.matrix },
       { top := 2, left := 0, negated := false, body := .sym p.riskRoot },
       { top := 2, left := n, negated := true, body := .sym p.riskRoot },
       { top := orthant, left := 0, negated := true, body := .unit n },
       { top := orthant + n, left := n, negated := true, body := .unit n },
       { top := 1, left := 2 * n + p.auxiliaries, negated := true, body := .unit 1 }] }

/-- The right-hand side `b`. -/
def rightHand (p : TradeProgram F) : Operator F :=
  let one : Block F := { top := 0, left := 0, negated := false, body := .unit 1 }
  let risk : Block F :=
    { top := 2, left := 0, negated := false, body := .rect (.ofColumn p.riskNow) }
  let growth : Block F :=
    { top := 2 + p.assets, left := 0, negated := false
      body := .rect (.ofColumn p.tree.constants) }
  { rows := p.rows
    cols := 1
    blocks := [risk, growth, one]
    sumOrder := [one, risk, growth] }

/-- The cone of `b - A x`. -/
def cone (p : TradeProgram F) : ProductCone where
  rotated := (2 + p.assets) :: List.replicate p.auxiliaries 3
  orthant := 1 + 2 * p.assets

/-- The program in the form that solvers take. -/
def conic (p : TradeProgram F) : ConicProgram F where
  cost := p.cost
  system := p.system
  rightHand := p.rightHand
  cone := p.cone

/-! ## Solutions -/

/-- The columns `δ` and `λ` of a point of the program. -/
def split? (p : TradeProgram F) (x : Column F) : Option (Column F × Column F) :=
  if x.size = p.cols then some (x.slice 0 p.assets, x.slice p.assets p.assets) else none

end TradeProgram

/-- The program of the inputs of a period, with the root of the covariance taken
by a method. There is none where the parts are not about the same assets. -/
def Inputs.program? (root : RootMethod F) (inp : Inputs F) (epsZero : F) :
    Option (TradeProgram F) := do
  let covariance ← inp.covariance.symmetrize?
  TradeProgram.buildBy? root inp.returns covariance inp.riskAversion inp.coupling
    inp.allocation inp.growth epsZero

end Rebalancing
