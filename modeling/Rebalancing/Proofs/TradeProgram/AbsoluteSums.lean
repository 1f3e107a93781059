-- SUMMARY: The absolute sums of a trade program's operators are those over the rows and columns of their dense forms.
import Mathlib
import Rebalancing.Proofs.Conic.AbsoluteSums
import Rebalancing.Proofs.TradeProgram.Matrices

/-!
# Absolute sums of trade programs

The blocks of each operator of a trade program lie apart: those of the cost below each
other, and those of the system in rows of their own or, for the risk that is taken
away and the risk that is added, side by side. So the sums by which a solver scales
rows and columns are those of the matrices that it multiplies by.
-/

namespace Rebalancing

namespace TradeProgram

/-! ## Blocks that lie apart -/

section Tiles

variable {F : Type} [Scalar F] {p : TradeProgram F}

omit [Scalar F] in
theorem tiled_cost : p.cost.Tiled where
  within := within_cost
  apart := by
    have hreturns : p.returns.size = p.assets := rfl
    simp only [cost, List.pairwise_cons, List.mem_cons, List.not_mem_nil, or_false,
      false_implies, implies_true, List.Pairwise.nil, and_true, forall_eq_or_imp, forall_eq,
      Block.Apart, BlockBody.rows, BlockBody.cols,
      RectMatrix.rows_ofColumn, RectMatrix.cols_ofColumn, hreturns]
    omega
  perm := .refl _

variable (hp : p.Sized)

include hp

theorem tiled_system : p.system.Tiled where
  within := within_system hp
  apart := by
    have horder := hp.order_riskRoot
    have hassets := hp.assets_tree
    simp only [system, List.pairwise_cons, List.mem_cons, List.not_mem_nil, or_false,
      false_implies, implies_true, List.Pairwise.nil, and_true, forall_eq_or_imp, forall_eq,
      Block.Apart, BlockBody.rows, BlockBody.cols,
      GrowthTree.rows_matrix, GrowthTree.cols_matrix, horder]
    omega
  perm := .refl _

theorem tiled_rightHand : p.rightHand.Tiled where
  within := within_rightHand hp
  apart := by
    have hnow := hp.size_riskNow
    simp only [rightHand, List.pairwise_cons, List.mem_cons, List.not_mem_nil, or_false,
      false_implies, implies_true, List.Pairwise.nil, and_true, forall_eq_or_imp, forall_eq,
      Block.Apart, BlockBody.rows, BlockBody.cols,
      RectMatrix.rows_ofColumn, RectMatrix.cols_ofColumn, GrowthTree.size_constants, hnow]
    omega
  perm := (List.perm_append_singleton _ _).symm

end Tiles

end TradeProgram

end Rebalancing
