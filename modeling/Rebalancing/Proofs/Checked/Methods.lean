-- SUMMARY: The cost, the system and the right-hand side of a stored program by methods that work through the parts of a column.
import Mathlib
import Rebalancing.Proofs.Checked.InPlace
import Rebalancing.Proofs.Checked.Rebalance
import Rebalancing.Proofs.Conic.OperatorMatrix

/-!
# Operators by methods

A solver knows the cost, the system and the right-hand side of a program by their size and
by four methods each: two products and two absolute sums. A method splits its columns in
the parts of the program, has every matrix work on the parts that it meets, and adds what
the identities contribute by hand. Each of them is written out on its own, with splits of
its own. None of them puts a matrix together, and nothing in them says that both products
are by one matrix, or that the sums are those of that matrix.
-/

namespace Rebalancing

variable {F : Type} [Scalar F]

namespace Checked

/-! ## The cost -/

/-- What the methods of the cost work with. -/
structure CostParts (F : Type) where
  auxiliaries : ℕ
  returns : RectMatrix F

namespace CostParts

variable (o : CostParts F)

/-- The numbers of assets and of auxiliary variables, for returns in one column. -/
def dim? : Option (ℕ × ℕ) :=
  if o.returns.cols = 1 then some (o.returns.rows, o.auxiliaries) else none

def size? : Option (ℕ × ℕ) := do
  let (n, m) ← o.dim?
  some (2 * n + m + 1, 1)

def mulAdd? (a : F) (x : Column F) (b : F) (y : Column F) : Option (Column F) := do
  let (n, m) ← o.dim?
  let [delta, lam, aux, bound] ← split? (whole y) [n, n, m, 1] | none
  let y ← onStretch? (o.returns.mulAdd? a x b) delta y
  let y ← onStretch? (o.returns.mulAdd? (-a) x b) lam y
  let y ← onStretch? (scale? b) aux y
  let y ← onStretch? (scale? b) bound y
  onStretch? (addScaled? a x) bound y

def transMulAdd? (a : F) (x : Column F) (b : F) (y : Column F) : Option (Column F) := do
  let (n, m) ← o.dim?
  let [delta, lam, _, bound] ← split? (whole x) [n, n, m, 1] | none
  let y ← o.returns.transMulAdd? a (x.on delta) b y
  let y ← o.returns.transMulAdd? (-a) (x.on lam) 1 y
  addScaled? a (x.on bound) y

def addAbsCols? (y : Column F) : Option (Column F) := do
  let y ← o.returns.addAbsCols? y
  let y ← o.returns.addAbsCols? y
  addToFirst? 1 y

def addAbsRows? (y : Column F) : Option (Column F) := do
  let (n, m) ← o.dim?
  let [delta, lam, _, bound] ← split? (whole y) [n, n, m, 1] | none
  let y ← onStretch? o.returns.addAbsRows? delta y
  let y ← onStretch? o.returns.addAbsRows? lam y
  onStretch? (addToFirst? 1) bound y

def methods : Methods F where
  size? := o.size?
  mulAdd? := o.mulAdd?
  transMulAdd? := o.transMulAdd?
  addAbsCols? := o.addAbsCols?
  addAbsRows? := o.addAbsRows?

end CostParts

/-! ## The system -/

/-- What the methods of the system work with. -/
structure SystemParts (F : Type) where
  riskRoot : SymMatrix F
  treeMatrix : RectMatrix F

namespace SystemParts

variable (o : SystemParts F)

/-- The numbers of assets, of auxiliary variables and of rows of the tree, for a tree whose
variables begin with the trade. -/
def dim? : Option (ℕ × ℕ × ℕ) :=
  let n := o.riskRoot.order
  if 2 * n ≤ o.treeMatrix.cols then some (n, o.treeMatrix.cols - 2 * n, o.treeMatrix.rows)
  else none

def size? : Option (ℕ × ℕ) := do
  let (n, m, k) ← o.dim?
  some ((2 + n) + k + 2 * n, 2 * n + m + 1)

def mulAdd? (a : F) (x : Column F) (b : F) (y : Column F) : Option (Column F) := do
  let (n, m, k) ← o.dim?
  let [delta, lam, _, bound] ← split? (whole x) [n, n, m, 1] | none
  let [trade] ← split? (whole x) [2 * n + m] | none
  let [one, variance, risk, tree, sold, bought] ← split? (whole y) [1, 1, n, k, n, n] | none
  let y ← onStretch? (scale? b) one y
  let y ← onStretch? (scale? b) variance y
  let y ← onStretch? (addScaled? (-a) (x.on bound)) variance y
  let y ← onStretch? (o.riskRoot.mulAdd? a (x.on delta) b) risk y
  let y ← onStretch? (o.riskRoot.mulAdd? (-a) (x.on lam) 1) risk y
  let y ← onStretch? (o.treeMatrix.mulAdd? a (x.on trade) b) tree y
  let y ← onStretch? (scale? b) sold y
  let y ← onStretch? (addScaled? (-a) (x.on delta)) sold y
  let y ← onStretch? (scale? b) bought y
  onStretch? (addScaled? (-a) (x.on lam)) bought y

def transMulAdd? (a : F) (x : Column F) (b : F) (y : Column F) : Option (Column F) := do
  let (n, m, k) ← o.dim?
  let [_, variance, risk, tree, sold, bought] ← split? (whole x) [1, 1, n, k, n, n] | none
  let [trade, bound] ← split? (whole y) [2 * n + m, 1] | none
  let y ← onStretch? (o.treeMatrix.transMulAdd? a (x.on tree) b) trade y
  let [delta, lam] ← split? trade [n, n] | none
  let y ← onStretch? (o.riskRoot.mulAdd? a (x.on risk) 1) delta y
  let y ← onStretch? (addScaled? (-a) (x.on sold)) delta y
  let y ← onStretch? (o.riskRoot.mulAdd? (-a) (x.on risk) 1) lam y
  let y ← onStretch? (addScaled? (-a) (x.on bought)) lam y
  let y ← onStretch? (scale? b) bound y
  onStretch? (addScaled? (-a) (x.on variance)) bound y

def addAbsCols? (y : Column F) : Option (Column F) := do
  let (n, m, _) ← o.dim?
  let [trade, bound] ← split? (whole y) [2 * n + m, 1] | none
  let y ← onStretch? o.treeMatrix.addAbsCols? trade y
  let [delta, lam] ← split? trade [n, n] | none
  let y ← onStretch? o.riskRoot.addAbs? delta y
  let y ← onStretch? (addToAll? 1) delta y
  let y ← onStretch? o.riskRoot.addAbs? lam y
  let y ← onStretch? (addToAll? 1) lam y
  onStretch? (addToFirst? 1) bound y

def addAbsRows? (y : Column F) : Option (Column F) := do
  let (n, _, k) ← o.dim?
  let [_, variance, risk, tree, sold, bought] ← split? (whole y) [1, 1, n, k, n, n] | none
  let y ← onStretch? (addToFirst? 1) variance y
  -- The root stands in these rows twice, for what is sold and for what is bought.
  let y ← onStretch? o.riskRoot.addAbs? risk y
  let y ← onStretch? o.riskRoot.addAbs? risk y
  let y ← onStretch? o.treeMatrix.addAbsRows? tree y
  let y ← onStretch? (addToAll? 1) sold y
  onStretch? (addToAll? 1) bought y

def methods : Methods F where
  size? := o.size?
  mulAdd? := o.mulAdd?
  transMulAdd? := o.transMulAdd?
  addAbsCols? := o.addAbsCols?
  addAbsRows? := o.addAbsRows?

end SystemParts

/-! ## The right-hand side -/

/-- What the methods of the right-hand side work with. -/
structure RightHandParts (F : Type) where
  riskNow : RectMatrix F
  treeConstants : RectMatrix F

namespace RightHandParts

variable (o : RightHandParts F)

/-- The numbers of assets and of rows of the tree, for a risk and constants in one column
each. -/
def dim? : Option (ℕ × ℕ) :=
  if o.riskNow.cols = 1 ∧ o.treeConstants.cols = 1 then
    some (o.riskNow.rows, o.treeConstants.rows)
  else none

def size? : Option (ℕ × ℕ) := do
  let (n, k) ← o.dim?
  some ((2 + n) + k + 2 * n, 1)

def mulAdd? (a : F) (x : Column F) (b : F) (y : Column F) : Option (Column F) := do
  let (n, k) ← o.dim?
  let [one, variance, risk, tree, orthant] ← split? (whole y) [1, 1, n, k, 2 * n] | none
  let y ← onStretch? (scale? b) one y
  let y ← onStretch? (addScaled? a x) one y
  let y ← onStretch? (scale? b) variance y
  let y ← onStretch? (o.riskNow.mulAdd? a x b) risk y
  let y ← onStretch? (o.treeConstants.mulAdd? a x b) tree y
  onStretch? (scale? b) orthant y

def transMulAdd? (a : F) (x : Column F) (b : F) (y : Column F) : Option (Column F) := do
  let (n, k) ← o.dim?
  let [one, _, risk, tree, _] ← split? (whole x) [1, 1, n, k, 2 * n] | none
  let y ← o.riskNow.transMulAdd? a (x.on risk) b y
  let y ← o.treeConstants.transMulAdd? a (x.on tree) 1 y
  addScaled? a (x.on one) y

def addAbsCols? (y : Column F) : Option (Column F) := do
  let y ← addToFirst? 1 y
  let y ← o.riskNow.addAbsCols? y
  o.treeConstants.addAbsCols? y

def addAbsRows? (y : Column F) : Option (Column F) := do
  let (n, k) ← o.dim?
  let [one, _, risk, tree, _] ← split? (whole y) [1, 1, n, k, 2 * n] | none
  let y ← onStretch? (addToFirst? 1) one y
  let y ← onStretch? o.riskNow.addAbsRows? risk y
  onStretch? o.treeConstants.addAbsRows? tree y

def methods : Methods F where
  size? := o.size?
  mulAdd? := o.mulAdd?
  transMulAdd? := o.transMulAdd?
  addAbsCols? := o.addAbsCols?
  addAbsRows? := o.addAbsRows?

end RightHandParts

/-! ## Stored programs -/

namespace StoredProgram

def costParts (p : StoredProgram F) : CostParts F where
  auxiliaries := p.auxiliaries
  returns := p.returns

def systemParts (p : StoredProgram F) : SystemParts F where
  riskRoot := p.riskRoot
  treeMatrix := p.treeMatrix

def rightHandParts (p : StoredProgram F) : RightHandParts F where
  riskNow := p.riskNow
  treeConstants := p.treeConstants

section OfProgram

variable (p : TradeProgram F)

/-- A tree about the assets of the program begins with the trade. -/
theorem cols_tree {p : TradeProgram F} (hp : p.Sized) :
    p.tree.matrix.cols = 2 * p.assets + p.auxiliaries := by
  rw [GrowthTree.cols_matrix, GrowthTree.cols, hp.assets_tree]
  rfl

@[simp] theorem returns_costParts : (ofProgram p).costParts.returns = .ofColumn p.returns := rfl

@[simp] theorem riskRoot_systemParts : (ofProgram p).systemParts.riskRoot = p.riskRoot := rfl

@[simp] theorem treeMatrix_systemParts :
    (ofProgram p).systemParts.treeMatrix = p.tree.matrix := rfl

@[simp] theorem riskNow_rightHandParts :
    (ofProgram p).rightHandParts.riskNow = .ofColumn p.riskNow := rfl

@[simp] theorem treeConstants_rightHandParts :
    (ofProgram p).rightHandParts.treeConstants = .ofColumn p.tree.constants := rfl

theorem dim?_costParts : (ofProgram p).costParts.dim? = some (p.assets, p.auxiliaries) := rfl

theorem dim?_systemParts (hp : p.Sized) :
    (ofProgram p).systemParts.dim? = some (p.assets, p.auxiliaries, p.tree.rows) := by
  simp only [SystemParts.dim?, riskRoot_systemParts, treeMatrix_systemParts, hp.order_riskRoot,
    cols_tree hp, Nat.le_add_right, if_true, Nat.add_sub_cancel_left, GrowthTree.rows_matrix]

theorem dim?_rightHandParts (hp : p.Sized) :
    (ofProgram p).rightHandParts.dim? = some (p.assets, p.tree.rows) := by
  simp only [RightHandParts.dim?, riskNow_rightHandParts, treeConstants_rightHandParts,
    RectMatrix.cols_ofColumn, RectMatrix.rows_ofColumn, and_self, if_true, hp.size_riskNow,
    GrowthTree.size_constants]

end OfProgram

end StoredProgram

/-! ## Splits -/

section Splits

variable (n m k : ℕ) (x : Column F)

omit [Scalar F] in
/-- The parts `δ`, `λ`, `u` and `t` of a point. -/
theorem split?_point :
    split? (whole x) [n, n, m, 1] =
      if 2 * n + m + 1 ≤ x.size then some [⟨0, n⟩, ⟨n, n⟩, ⟨2 * n, m⟩, ⟨2 * n + m, 1⟩]
      else none := by
  have hsum : [n, n, m, 1].sum = 2 * n + m + 1 := by simp; omega
  rw [whole, split?_eq, hsum]
  simp only [Stretch.consecutive, Nat.zero_add, ← two_mul]

omit [Scalar F] in
/-- What the tree reads of a point, and the part `t`. -/
theorem split?_bound :
    split? (whole x) [2 * n + m, 1] =
      if 2 * n + m + 1 ≤ x.size then some [⟨0, 2 * n + m⟩, ⟨2 * n + m, 1⟩] else none := by
  have hsum : [2 * n + m, 1].sum = 2 * n + m + 1 := by simp
  rw [whole, split?_eq, hsum]
  simp only [Stretch.consecutive, Nat.zero_add]

omit [Scalar F] in
/-- What the tree reads of a point that is long enough. -/
theorem split?_tree (hx : 2 * n + m + 1 ≤ x.size) :
    split? (whole x) [2 * n + m] = some [⟨0, 2 * n + m⟩] := by
  have hsum : [2 * n + m].sum ≤ x.size := by simp; omega
  rw [whole, split?_eq, if_pos hsum, Stretch.consecutive, Stretch.consecutive]

/-- The parts `δ` and `λ` of what the tree reads. -/
theorem split?_trade : split? ⟨0, 2 * n + m⟩ [n, n] = some [⟨0, n⟩, ⟨n, n⟩] := by
  have hsum : [n, n].sum ≤ 2 * n + m := by simp; omega
  rw [split?_eq, if_pos hsum]
  simp only [Stretch.consecutive, Nat.zero_add]

omit [Scalar F] in
/-- The six parts of a slack. -/
theorem split?_slack :
    split? (whole x) [1, 1, n, k, n, n] =
      if (2 + n) + k + 2 * n ≤ x.size then
        some [⟨0, 1⟩, ⟨1, 1⟩, ⟨2, n⟩, ⟨2 + n, k⟩, ⟨2 + n + k, n⟩, ⟨2 + n + k + n, n⟩]
      else none := by
  have hsum : [1, 1, n, k, n, n].sum = (2 + n) + k + 2 * n := by simp; omega
  rw [whole, split?_eq, hsum]
  simp only [Stretch.consecutive, Nat.zero_add, Nat.reduceAdd]

omit [Scalar F] in
/-- The parts of a slack, with its last two as one. -/
theorem split?_orthant :
    split? (whole x) [1, 1, n, k, 2 * n] =
      if (2 + n) + k + 2 * n ≤ x.size then
        some [⟨0, 1⟩, ⟨1, 1⟩, ⟨2, n⟩, ⟨2 + n, k⟩, ⟨2 + n + k, 2 * n⟩]
      else none := by
  have hsum : [1, 1, n, k, 2 * n].sum = (2 + n) + k + 2 * n := by simp; omega
  rw [whole, split?_eq, hsum]
  simp only [Stretch.consecutive, Nat.zero_add, Nat.reduceAdd]

/-- The part of a point that an index is in, or behind it. -/
theorem point_cases (n m i : ℕ) :
    i < n ∨ (n ≤ i ∧ i < n + n) ∨ (2 * n ≤ i ∧ i < 2 * n + m) ∨ i = 2 * n + m ∨
      2 * n + m < i := by
  omega

/-- The part of a slack that an index is in, or behind it. -/
theorem slack_cases (n k i : ℕ) :
    i = 0 ∨ i = 1 ∨ (2 ≤ i ∧ i < 2 + n) ∨ (2 + n ≤ i ∧ i < 2 + n + k) ∨
      (2 + n + k ≤ i ∧ i < 2 + n + k + n) ∨ (2 + n + k + n ≤ i ∧ i < 2 + n + k + n + n) ∨
      2 + n + k + n + n ≤ i := by
  omega

end Splits

end Checked

end Rebalancing
