-- SUMMARY: A first-order solver for conic linear programs: preconditioned primal-dual steps on the homogeneous self-dual embedding.
import Rebalancing.Conic.Program

/-!
# First-order solver

A program and its dual are joined in one homogeneous system with a scale `t`: a
solution with `t > 0` gives an optimal `x / t`, and one with `t = 0` certifies
that the program is unbounded or infeasible. The solver steps on that system
with a step size of its own for every row and column. It needs products with
the operators of the program and nearest points of its cone, nothing else.
-/

namespace Rebalancing

namespace FirstOrder

variable {F : Type}

/-! ## Points of the joint system -/

/-- Variables of the joint system: those of the program and of its dual, the slack
and the scale. -/
structure Primal (F : Type) where
  x : Column F
  y : Column F
  s : Column F
  t : F

/-- Rows of the joint system: one for every variable of the program, one for every
row of it, and one for the duality gap. -/
structure Dual (F : Type) where
  n : Column F
  m : Column F
  gap : F

variable [Scalar F]

/-- Combine two columns entry by entry. -/
@[inline] def zip (f : F → F → F) (x y : Column F) : Column F :=
  Column.tabulate x.size fun i => f (x.coord i) (y.coord i)

@[inline] def Primal.zip (f : F → F → F) (p q : Primal F) : Primal F where
  x := FirstOrder.zip f p.x q.x
  y := FirstOrder.zip f p.y q.y
  s := FirstOrder.zip f p.s q.s
  t := f p.t q.t

@[inline] def Dual.zip (f : F → F → F) (p q : Dual F) : Dual F where
  n := FirstOrder.zip f p.n q.n
  m := FirstOrder.zip f p.m q.m
  gap := f p.gap q.gap

/-- The column of a single scalar. -/
@[inline] def single (a : F) : Column F := #[a]

/-! ## Products with the joint system -/

/-- The rows of the joint system at some variables, with the sign of a step. -/
@[specialize] def image (p : ConicProgram F) (v : Primal F) : Dual F :=
  let n := p.system.transMulAdd (-1) v.y 0 (Column.zeros p.system.cols)
  let m := zip (· + ·) (p.system.mulAdd 1 v.x 0 (Column.zeros p.system.rows)) v.s
  let gap := p.rightHand.transMulAdd 1 v.y 1 (p.cost.transMulAdd 1 v.x 0 (Column.zeros 1))
  { n := p.cost.mulAdd (-1) (single v.t) 1 n
    m := p.rightHand.mulAdd (-1) (single v.t) 1 m
    gap := gap.coord 0 }

/-- The transposed joint system at some rows, with the sign of a step. -/
@[specialize] def imageTrans (p : ConicProgram F) (w : Dual F) : Primal F :=
  let x := p.system.transMulAdd 1 w.m 0 (Column.zeros p.system.cols)
  let y := p.system.mulAdd (-1) w.n 0 (Column.zeros p.system.rows)
  let t := p.rightHand.transMulAdd (-1) w.m 1
    (p.cost.transMulAdd (-1) w.n 0 (Column.zeros 1))
  { x := p.cost.mulAdd 1 (single w.gap) 1 x
    y := p.rightHand.mulAdd 1 (single w.gap) 1 y
    s := w.m.map (0 + ·)
    t := t.coord 0 }

/-! ## Step sizes -/

/-- Step sizes of the variables and of the rows: reciprocals of the absolute sums
along the joint system, none of them above the reciprocal of `epsZero`, and level
on every block of the cone. -/
def stepSizes (p : ConicProgram F) (epsZero : F) : Primal F × Dual F :=
  let reciprocal (e : F) : F := 1 / Scalar.max e epsZero
  let level (x : Column F) : Column F :=
    p.cone.mapGroups ProductCone.levelDown (x.map reciprocal)
  let x := p.cost.addAbsRows (p.system.addAbsCols (Column.zeros p.system.cols))
  let y := p.rightHand.addAbsRows (p.system.addAbsRows (Column.zeros p.system.rows))
  let s := Column.tabulate p.system.rows fun _ => 1
  let t := (p.rightHand.addAbsCols (p.cost.addAbsCols (Column.zeros 1))).coord 0
  ({ x := x.map reciprocal, y := level y, s := level s, t := reciprocal t },
   { n := x.map reciprocal, m := (zip (· + ·) y s).map reciprocal, gap := reciprocal t })

/-! ## Steps -/

/-- Move the variables along the transposed system and back into their cones. -/
@[specialize] def stepPrimal (p : ConicProgram F) (tau : Primal F) (v : Primal F) (w : Dual F) :
    Primal F :=
  let moved := Primal.zip (· + ·) (Primal.zip (· * ·) tau (imageTrans p w)) v
  { x := moved.x
    y := p.cone.nearest moved.y
    s := p.cone.nearest moved.s
    t := Scalar.max moved.t 0 }

/-- Move the rows along the system at the variables reflected in their new
place. -/
@[specialize] def stepDual (p : ConicProgram F) (sigma : Dual F) (v v' : Primal F) (w : Dual F) :
    Dual F :=
  let reflected := Primal.zip (fun e e' => e + -Scalar.two * e') v v'
  let moved := Dual.zip (· + ·) (Dual.zip (· * ·) sigma (image p reflected)) w
  { moved with gap := Scalar.min moved.gap 0 }

/-! ## Verdicts -/

/-- Lengths of the cost and of the right-hand side. -/
structure DataNorms (F : Type) where
  rightHand : F
  cost : F

/-- The length of an operator of one column. -/
def columnNorm (op : Operator F) : F :=
  let q := (op.mulAdd 1 (single 1) 0 (Column.zeros op.rows)).norm
  Scalar.sqrt (q * q)

def dataNorms (p : ConicProgram F) : DataNorms F where
  rightHand := columnNorm p.rightHand
  cost := columnNorm p.cost

/-- The optimal `x` that variables with a scale above zero give, if residuals and
gap are small enough. -/
@[specialize] def solution? (p : ConicProgram F) (epsAcc : F) (norms : DataNorms F)
    (v : Primal F) : Option (Column F) :=
  let inv := 1 / v.t
  let r := p.system.mulAdd inv v.x 1 (p.rightHand.mulAdd (-1) (single 1) inv v.s)
  let d := p.system.transMulAdd inv v.y 1
    (p.cost.mulAdd 1 (single 1) 0 (Column.zeros p.system.cols))
  let gx := (p.cost.transMulAdd inv v.x 0 (Column.zeros 1)).coord 0
  let gy := (p.rightHand.transMulAdd inv v.y 0 (Column.zeros 1)).coord 0
  if r.norm / (1 + norms.rightHand) ≤ epsAcc && d.norm / (1 + norms.cost) ≤ epsAcc
      && Scalar.abs (gx + gy) / (1 + Scalar.abs gx + Scalar.abs gy) ≤ epsAcc then
    some (v.x.map (inv * ·))
  else none

/-- What variables without a scale certify: a direction that lowers the cost, or
one that shows the constraints to contradict each other. -/
@[specialize] def certificate? (p : ConicProgram F) (par : SolverSettings F)
    (norms : DataNorms F) (v : Primal F) : Option SolverError :=
  let r := p.system.mulAdd 1 v.x 1 v.s
  let d := p.system.transMulAdd 1 v.y 0 (Column.zeros p.system.cols)
  let gainX := (p.cost.transMulAdd (-1) v.x 0 (Column.zeros 1)).coord 0
  let gainY := (p.rightHand.transMulAdd (-1) v.y 0 (Column.zeros 1)).coord 0
  let offX := if par.epsZero < gainX then r.norm * norms.cost / gainX else Scalar.infinity
  let offY := if par.epsZero < gainY then d.norm * norms.rightHand / gainY else Scalar.infinity
  if offX ≤ par.epsInf then some .unbounded
  else if offY ≤ par.epsInf then some .infeasible
  else none

/-- Whether the variables pass for a solution without a scale to divide by. That
takes an `epsZero` below zero. -/
@[inline] def lacksScale (par : SolverSettings F) (v : Primal F) : Bool :=
  par.epsZero < v.t && !(0 < v.t : Bool)

/-- What variables say of the program, if anything. -/
@[specialize] def verdict? (p : ConicProgram F) (par : SolverSettings F) (norms : DataNorms F)
    (v : Primal F) : Option (Except SolverError (Column F)) :=
  if par.epsZero < v.t then (solution? p par.epsAcc norms v).map .ok
  else (certificate? p par norms v).map .error

/-! ## Solving -/

/-- Step until a verdict is reached, at most one step more than `rest`. There is no
result where a scale to divide by is lacking. -/
@[specialize] def run (p : ConicProgram F) (par : SolverSettings F) (norms : DataNorms F)
    (tau : Primal F) (sigma : Dual F) (rest : Nat) (v : Primal F) (w : Dual F) :
    Option (Except SolverError (Column F)) :=
  let v' := stepPrimal p tau v w
  let w' := stepDual p sigma v v' w
  if lacksScale par v' then none
  else
    match verdict? p par norms v' with
    | some verdict => some verdict
    | none =>
      match rest with
      | 0 => some (.error .excessIter)
      | rest + 1 => run p par norms tau sigma rest v' w'

/-- Number of steps that stands for no limit. -/
def unlimited : Nat := Nat.pow 2 64

/-- Solve a program by first-order steps. At least one step is made. -/
@[specialize] def solve : ConicSolver F := fun par p =>
  let (tau, sigma) := stepSizes p par.epsZero
  let zeroN := Column.zeros p.system.cols
  let zeroM := Column.zeros p.system.rows
  run p par (dataNorms p) tau sigma (par.maxIter.getD unlimited - 1)
    { x := zeroN, y := zeroM, s := zeroM, t := 1 } { n := zeroN, m := zeroM, gap := 0 }

end FirstOrder

end Rebalancing
