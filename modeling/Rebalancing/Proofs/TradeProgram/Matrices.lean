-- SUMMARY: The operators of a trade program act by block matrices of the returns, the root of the covariance, the rows of the growth tree, and the identity.
import Mathlib
import Rebalancing.Proofs.Conic.OperatorMatrix
import Rebalancing.Proofs.Diagonal
import Rebalancing.Proofs.Matrix.Spectrum
import Rebalancing.Proofs.TradeProgram.Slack

/-!
# Matrices of trade programs

A point of a trade program has the parts `δ`, `λ`, `u` and `t`, and its slack has
six parts. Here the matrices of the program are written by these parts, and every
cell of an operator is the one that stands at the places of its two parts.
-/

open Finset Matrix

namespace Rebalancing

/-! ## Places of parts -/

/-- The places of a part of `a` places, before those of further parts. -/
def placeBefore {β : Type} (a : ℕ) {b : ℕ} (e : β ≃ Fin b) : Fin a ⊕ β ≃ Fin (a + b) :=
  ((Equiv.refl _).sumCongr e).trans finSumFinEquiv

@[simp] theorem placeBefore_inl {β : Type} {a b : ℕ} (e : β ≃ Fin b) (i : Fin a) :
    (placeBefore a e (.inl i) : ℕ) = i := by
  simp [placeBefore]

@[simp] theorem placeBefore_inr {β : Type} {a b : ℕ} (e : β ≃ Fin b) (j : β) :
    (placeBefore a e (.inr j) : ℕ) = a + e j := by
  simp [placeBefore]

/-- A matrix of cells is known from the cells at the places of parts. -/
theorem of_eq_reindex {ι κ : Type} {rows cols : ℕ} {entry : ℕ → ℕ → ℝ} {M : Matrix ι κ ℝ}
    {e : ι ≃ Fin rows} {f : κ ≃ Fin cols} (h : ∀ i j, entry (e i) (f j) = M i j) :
    (Matrix.of fun (r : Fin rows) (c : Fin cols) => entry r c) = reindex e f M := by
  ext r c
  simpa using h (e.symm r) (f.symm c)

namespace TradeProgram

/-- The parts `δ`, `λ` and `u` of a point, for `n` assets and `m` auxiliary variables. -/
abbrev TreePart (n m : ℕ) : Type := Fin n ⊕ Fin n ⊕ Fin m

/-- The parts of a point; the last one is the bound `t` on the variance. -/
abbrev PointPart (n m : ℕ) : Type := TreePart n m ⊕ Fin 1

/-- The parts of a slack: the constant one, the bound on the variance, the risk that
remains, the rows of the growth tree, and the two columns of the trade. -/
abbrev SlackPart (n g : ℕ) : Type := Fin 1 ⊕ Fin 1 ⊕ Fin n ⊕ Fin g ⊕ Fin n ⊕ Fin n

def treePlace (n m : ℕ) : TreePart n m ≃ Fin (n + (n + m)) := placeBefore n finSumFinEquiv

section Places

variable (p : TradeProgram ℝ)

theorem count_point : p.assets + (p.assets + p.auxiliaries) + 1 = p.cols := by
  rw [cols]
  omega

theorem count_slack :
    1 + (1 + (p.assets + (p.tree.rows + (p.assets + p.assets)))) = p.rows := by
  rw [rows]
  omega

def pointPlace : PointPart p.assets p.auxiliaries ≃ Fin p.cols :=
  (((treePlace _ _).sumCongr (Equiv.refl _)).trans finSumFinEquiv).trans (finCongr p.count_point)

def slackPlace : SlackPart p.assets p.tree.rows ≃ Fin p.rows :=
  (placeBefore 1 <| placeBefore 1 <| placeBefore p.assets <| placeBefore p.tree.rows
    finSumFinEquiv).trans (finCongr p.count_slack)

theorem treePlace_delta {n m : ℕ} (i : Fin n) : (treePlace n m (.inl i) : ℕ) = i := by
  simp [treePlace]

theorem treePlace_lam {n m : ℕ} (i : Fin n) : (treePlace n m (.inr (.inl i)) : ℕ) = n + i := by
  simp [treePlace]

theorem treePlace_aux {n m : ℕ} (k : Fin m) :
    (treePlace n m (.inr (.inr k)) : ℕ) = 2 * n + k := by
  simp [treePlace, two_mul, add_assoc]

theorem pointPlace_tree (j : TreePart p.assets p.auxiliaries) :
    (p.pointPlace (.inl j) : ℕ) = treePlace _ _ j := by
  simp [pointPlace]

theorem pointPlace_bound (k : Fin 1) :
    (p.pointPlace (.inr k) : ℕ) = 2 * p.assets + p.auxiliaries := by
  simp [pointPlace]
  omega

theorem slackPlace_one (k : Fin 1) : (p.slackPlace (.inl k) : ℕ) = 0 := by
  simp [slackPlace]

theorem slackPlace_bound (k : Fin 1) : (p.slackPlace (.inr (.inl k)) : ℕ) = 1 := by
  simp [slackPlace]

theorem slackPlace_risk (i : Fin p.assets) :
    (p.slackPlace (.inr (.inr (.inl i))) : ℕ) = 2 + i := by
  simp [slackPlace]
  omega

theorem slackPlace_tree (k : Fin p.tree.rows) :
    (p.slackPlace (.inr (.inr (.inr (.inl k)))) : ℕ) = 2 + p.assets + k := by
  simp [slackPlace]
  omega

theorem slackPlace_delta (i : Fin p.assets) :
    (p.slackPlace (.inr (.inr (.inr (.inr (.inl i))))) : ℕ) = 2 + p.assets + p.tree.rows + i := by
  simp [slackPlace]
  omega

theorem slackPlace_lam (i : Fin p.assets) :
    (p.slackPlace (.inr (.inr (.inr (.inr (.inr i))))) : ℕ) =
      2 + p.assets + p.tree.rows + p.assets + i := by
  simp [slackPlace]
  omega

end Places

/-! ## Matrices by blocks -/

section Blocks

variable {n m g : ℕ}

/-- The cost `c = [μ; -μ; 0; 1]`. -/
noncomputable def costBlocks (μ : Fin n → ℝ) : Matrix (PointPart n m) (Fin 1) ℝ :=
  fromRows (fromRows (replicateCol _ μ) (fromRows (-replicateCol _ μ) 0)) 1

/-- The matrix `A`, with a row of blocks for every part of a slack. -/
noncomputable def systemBlocks (S : Matrix (Fin n) (Fin n) ℝ)
    (G : Matrix (Fin g) (TreePart n m) ℝ) : Matrix (SlackPart n g) (PointPart n m) ℝ :=
  fromRows (fromCols 0 0) <|
  fromRows (fromCols 0 (-1)) <|
  fromRows (fromCols (fromCols S (fromCols (-S) 0)) 0) <|
  fromRows (fromCols G 0) <|
  fromRows (fromCols (fromCols (-1) 0) 0) <|
    fromCols (fromCols 0 (fromCols (-1) 0)) 0

/-- The right-hand side `b = [1; 0; q; h; 0; 0]`. -/
noncomputable def rightHandBlocks (q : Fin n → ℝ) (h : Fin g → ℝ) :
    Matrix (SlackPart n g) (Fin 1) ℝ :=
  fromRows 1 <| fromRows 0 <| fromRows (replicateCol _ q) <| fromRows (replicateCol _ h) 0

end Blocks

/-- The matrix `G` of the growth tree. -/
noncomputable def treeMatrix (p : TradeProgram ℝ) :
    Matrix (Fin p.tree.rows) (TreePart p.assets p.auxiliaries) ℝ :=
  .of fun k j => p.tree.matrix.entry k (treePlace _ _ j)

section Matrices

variable (p : TradeProgram ℝ)

noncomputable def costMatrix (μ : Fin p.assets → ℝ) : Matrix (Fin p.cols) (Fin 1) ℝ :=
  reindex p.pointPlace (.refl _) (costBlocks μ)

noncomputable def systemMatrix (S : Matrix (Fin p.assets) (Fin p.assets) ℝ)
    (G : Matrix (Fin p.tree.rows) (TreePart p.assets p.auxiliaries) ℝ) :
    Matrix (Fin p.rows) (Fin p.cols) ℝ :=
  reindex p.slackPlace p.pointPlace (systemBlocks S G)

noncomputable def rightHandMatrix (q : Fin p.assets → ℝ) (h : Fin p.tree.rows → ℝ) :
    Matrix (Fin p.rows) (Fin 1) ℝ :=
  reindex p.slackPlace (.refl _) (rightHandBlocks q h)

end Matrices

/-! ## Blocks inside the operators -/

section Within

variable {F : Type} [Scalar F] {p : TradeProgram F}

omit [Scalar F] in
theorem within_cost : ∀ b ∈ p.cost.blocks, b.Within p.cost.rows p.cost.cols := by
  intro b hb
  simp only [cost, List.mem_cons, List.not_mem_nil, or_false] at hb
  rcases hb with rfl | rfl | rfl
  all_goals
    constructor <;>
      simp only [cost, BlockBody.rows, BlockBody.cols, RectMatrix.rows_ofColumn,
        RectMatrix.cols_ofColumn, cols, assets] <;> omega

variable (hp : p.Sized)

include hp

theorem within_system : ∀ b ∈ p.system.blocks, b.Within p.system.rows p.system.cols := by
  have horder := hp.order_riskRoot
  have hassets := hp.assets_tree
  intro b hb
  simp only [system, List.mem_cons, List.not_mem_nil, or_false] at hb
  rcases hb with rfl | rfl | rfl | rfl | rfl | rfl
  all_goals
    constructor <;>
      simp only [system, BlockBody.rows, BlockBody.cols, GrowthTree.rows_matrix,
        GrowthTree.cols_matrix, GrowthTree.cols, rows, cols, auxiliaries] <;> omega

theorem within_rightHand :
    ∀ b ∈ p.rightHand.blocks, b.Within p.rightHand.rows p.rightHand.cols := by
  have hnow := hp.size_riskNow
  intro b hb
  simp only [rightHand, List.mem_cons, List.not_mem_nil, or_false] at hb
  rcases hb with rfl | rfl | rfl
  all_goals
    constructor <;>
      simp only [rightHand, BlockBody.rows, BlockBody.cols, RectMatrix.rows_ofColumn,
        RectMatrix.cols_ofColumn, GrowthTree.size_constants, rows] <;> omega

end Within

/-! ## Cells of the operators -/

section Cells

variable {p : TradeProgram ℝ}

theorem entry_cost (r : ℕ) :
    p.cost.entry r 0 =
      (if r < p.assets then p.returns.coord r else 0) +
      (if p.assets ≤ r ∧ r < p.assets + p.assets then -p.returns.coord (r - p.assets) else 0) +
      (if 2 * p.assets + p.auxiliaries ≤ r ∧ r < 2 * p.assets + p.auxiliaries + 1 then
        if r - (2 * p.assets + p.auxiliaries) = 0 then 1 else 0
      else 0) := by
  have hreturns : p.returns.size = p.assets := rfl
  rw [Operator.entry_real]
  simp [cost, Block.cell_eq, BlockBody.rows, BlockBody.cols, BlockBody.entry, Block.sign, hreturns,
    add_assoc]

theorem entry_cost_place (j : PointPart p.assets p.auxiliaries) (k : Fin 1) :
    p.cost.entry (p.pointPlace j) k = costBlocks (p.returns.vec p.assets) j k := by
  rw [Fin.val_eq_zero k, entry_cost]
  rcases j with (i | i | k') | k'
  all_goals
    simp only [pointPlace_tree, pointPlace_bound, treePlace_delta, treePlace_lam, treePlace_aux]
    simp (disch := omega) only [if_pos, if_neg]
    simp [costBlocks, Column.vec, Fin.fin_one_eq_zero]

theorem actsBy_cost : p.cost.methods.ActsBy (p.costMatrix (p.returns.vec p.assets)) :=
  Operator.actsBy_of_cells within_cost rfl rfl (of_eq_reindex (f := .refl _) entry_cost_place)

variable (hp : p.Sized)

include hp

theorem entry_system (r c : ℕ) :
    p.system.entry r c =
      (if 2 + p.assets ≤ r ∧ r < 2 + p.assets + p.tree.rows then
        if c < 2 * p.assets + p.auxiliaries then p.tree.matrix.entry (r - (2 + p.assets)) c else 0
      else 0) +
      (if 2 ≤ r ∧ r < 2 + p.assets then
        if c < p.assets then p.riskRoot.entry (r - 2) c else 0
      else 0) +
      (if 2 ≤ r ∧ r < 2 + p.assets then
        if p.assets ≤ c ∧ c < p.assets + p.assets then -p.riskRoot.entry (r - 2) (c - p.assets)
        else 0
      else 0) +
      (if 2 + p.assets + p.tree.rows ≤ r ∧ r < 2 + p.assets + p.tree.rows + p.assets then
        if c < p.assets then -(if r - (2 + p.assets + p.tree.rows) = c then 1 else 0) else 0
      else 0) +
      (if 2 + p.assets + p.tree.rows + p.assets ≤ r ∧
          r < 2 + p.assets + p.tree.rows + p.assets + p.assets then
        if p.assets ≤ c ∧ c < p.assets + p.assets then
          -(if r - (2 + p.assets + p.tree.rows + p.assets) = c - p.assets then 1 else 0)
        else 0
      else 0) +
      (if 1 ≤ r ∧ r < 1 + 1 then
        if 2 * p.assets + p.auxiliaries ≤ c ∧ c < 2 * p.assets + p.auxiliaries + 1 then
          -(if r - 1 = c - (2 * p.assets + p.auxiliaries) then 1 else 0)
        else 0
      else 0) := by
  have hcols : p.tree.cols = 2 * p.assets + p.auxiliaries := by
    rw [← hp.assets_tree]
    rfl
  rw [Operator.entry_real]
  simp [system, Block.cell_eq, BlockBody.rows, BlockBody.cols, BlockBody.entry, Block.sign,
    hp.order_riskRoot, hcols, add_assoc]

theorem entry_system_place (i : SlackPart p.assets p.tree.rows)
    (j : PointPart p.assets p.auxiliaries) :
    p.system.entry (p.slackPlace i) (p.pointPlace j) =
      systemBlocks (p.riskRoot.toMatrix p.assets) p.treeMatrix i j := by
  rw [entry_system hp]
  -- A place of every part of a slack meets one of every part of a point; at most one of
  -- the six blocks holds that cell.
  rcases i with r | r | r | r | r | r <;> rcases j with (c | c | c) | c
  all_goals
    simp only [slackPlace_one, slackPlace_bound, slackPlace_risk, slackPlace_tree,
      slackPlace_delta, slackPlace_lam, pointPlace_tree, pointPlace_bound, treePlace_delta,
      treePlace_lam, treePlace_aux]
    simp (disch := omega) only [if_pos, if_neg]
    simp [systemBlocks, SymMatrix.toMatrix, treeMatrix, treePlace_delta, treePlace_lam,
      treePlace_aux, Matrix.one_apply, Fin.ext_iff]

theorem actsBy_system :
    p.system.methods.ActsBy (p.systemMatrix (p.riskRoot.toMatrix p.assets) p.treeMatrix) :=
  Operator.actsBy_of_cells (within_system hp) rfl rfl (of_eq_reindex (entry_system_place hp))

theorem entry_rightHand (r : ℕ) :
    p.rightHand.entry r 0 =
      (if 2 ≤ r ∧ r < 2 + p.assets then p.riskNow.coord (r - 2) else 0) +
      (if 2 + p.assets ≤ r ∧ r < 2 + p.assets + p.tree.rows then
        p.tree.constants.coord (r - (2 + p.assets))
      else 0) +
      (if r = 0 then 1 else 0) := by
  rw [Operator.entry_real]
  simp [rightHand, Block.cell_eq, BlockBody.rows, BlockBody.cols, BlockBody.entry, Block.sign,
    hp.size_riskNow, add_assoc]

theorem entry_rightHand_place (i : SlackPart p.assets p.tree.rows) (k : Fin 1) :
    p.rightHand.entry (p.slackPlace i) k =
      rightHandBlocks (p.riskNow.vec p.assets) (p.tree.constants.vec p.tree.rows) i k := by
  rw [Fin.val_eq_zero k, entry_rightHand hp]
  rcases i with r | r | r | r | r | r
  all_goals
    simp only [slackPlace_one, slackPlace_bound, slackPlace_risk, slackPlace_tree,
      slackPlace_delta, slackPlace_lam]
    simp (disch := omega) only [if_pos, if_neg]
    simp [rightHandBlocks, Column.vec, Fin.fin_one_eq_zero]

theorem actsBy_rightHand : p.rightHand.methods.ActsBy
    (p.rightHandMatrix (p.riskNow.vec p.assets) (p.tree.constants.vec p.tree.rows)) :=
  Operator.actsBy_of_cells (within_rightHand hp) rfl rfl
    (of_eq_reindex (f := .refl _) (entry_rightHand_place hp))

end Cells

/-! ## Programs that are built -/

/-- A program has all its parts about the same assets if the root is of their number. -/
theorem sized_of_eq_buildBy {F : Type} [Scalar F] {root : RootMethod F}
    {returns allocation growth : Column F} {covariance : SymMatrix F} {κ γ epsZero : F}
    {p : TradeProgram F} (hp : p = buildBy root returns covariance κ γ allocation growth epsZero)
    (hroot : (root covariance epsZero).order = returns.size)
    (hgrowth : growth.size = returns.size) : p.Sized := by
  subst hp
  constructor
  · exact (SymMatrix.order_ofFn _ _).trans hroot
  · exact Column.size_tabulate _ _
  · exact hgrowth

section Roots

variable {root : RootMethod ℝ} {returns : Column ℝ} {covariance : SymMatrix ℝ}
  {allocation growth : Column ℝ} {κ γ epsZero : ℝ} {p : TradeProgram ℝ}
  (hp : p = buildBy root returns covariance κ γ allocation growth epsZero)
  (hroot : (root covariance epsZero).order = returns.size)

include hp hroot

theorem toMatrix_riskRoot :
    p.riskRoot.toMatrix p.assets = √(2 * κ) • (root covariance epsZero).toMatrix p.assets := by
  subst hp
  rw [two_mul]
  exact SymMatrix.toMatrix_scale hroot _

theorem vec_riskNow :
    p.riskNow.vec p.assets = p.riskRoot.toMatrix p.assets *ᵥ allocation.vec p.assets := by
  subst hp
  have horder : ((root covariance epsZero).scale (Scalar.sqrt (κ + κ))).order = returns.size :=
    (SymMatrix.order_ofFn _ _).trans hroot
  ext i
  refine ((Column.coord_tabulate _ _ _).trans (if_pos i.isLt)).trans ?_
  refine (SymMatrix.rowDot_eq_mulVec horder allocation 0 i).trans ?_
  simp only [Nat.zero_add]
  rfl

end Roots

end TradeProgram

end Rebalancing
