-- SUMMARY: The slack of a trade program row by row, its cost, and its points as conditions on the trade.
import Mathlib
import Rebalancing.Proofs.Conic.BlockProduct
import Rebalancing.Proofs.Conic.Membership
import Rebalancing.Proofs.GrowthTree.Region
import Rebalancing.TradeProgram

/-!
# Slacks of trade programs

The operators of a trade program are made of blocks at computed places. Here the
slack `b - A x` is read row by row: the constant one, the bound on the variance,
the risk that remains, the rows of the growth tree, and the two columns of the
trade. Then a column is a point of the program by conditions on these rows.
-/

open Finset

namespace Rebalancing

namespace TradeProgram

/-- Every part of the program is about the same assets. -/
structure Sized {F : Type} (p : TradeProgram F) : Prop where
  order_riskRoot : p.riskRoot.order = p.assets
  size_riskNow : p.riskNow.size = p.assets
  assets_tree : p.tree.assets = p.assets

variable {p : TradeProgram ℝ}

/-! ## Products with the operators -/

theorem coord_slack (x : Column ℝ) {r : ℕ} (hr : r < p.rows) :
    (p.conic.slack x).coord r =
      (p.rightHand.blocks.map fun b => b.rowPart r #[1]).sum -
        (p.system.blocks.map fun b => b.rowPart r x).sum := by
  have hright : r < p.rightHand.rows := hr
  have hsystem : r < p.conic.system.rows := hr
  rw [ConicProgram.slack, Operator.coord_mulAdd _ _ _ _ _ hsystem]
  simp only [conic]
  rw [Operator.coord_mulAdd _ _ _ _ _ hright]
  ring

theorem sum_rightHand (hp : p.Sized) (r : ℕ) :
    (p.rightHand.blocks.map fun b => b.rowPart r #[1]).sum =
      (if 2 ≤ r ∧ r < 2 + p.assets then p.riskNow.coord (r - 2) else 0) +
      (if 2 + p.assets ≤ r ∧ r < 2 + p.assets + p.tree.rows then
        p.tree.constants.coord (r - (2 + p.assets)) else 0) +
      (if r = 0 then 1 else 0) := by
  have hone : (if r = 0 then Column.coord #[1] r else 0) = if r = 0 then (1 : ℝ) else 0 := by
    split
    · simp [‹r = 0›, Column.coord]
    · rfl
  simp [rightHand, Block.rowPart_rect, Block.rowPart_unit, RectMatrix.rowDot_ofColumn,
    hp.size_riskNow, hone, add_assoc]

theorem sum_system (hp : p.Sized) (x : Column ℝ) (r : ℕ) :
    (p.system.blocks.map fun b => b.rowPart r x).sum =
      (if 2 + p.assets ≤ r ∧ r < 2 + p.assets + p.tree.rows then
        p.tree.matrix.rowDot (r - (2 + p.assets)) x 0 else 0) +
      (if 2 ≤ r ∧ r < 2 + p.assets then p.riskRoot.rowDot (r - 2) x 0 else 0) +
      (if 2 ≤ r ∧ r < 2 + p.assets then -p.riskRoot.rowDot (r - 2) x p.assets else 0) +
      (if 2 + p.assets + p.tree.rows ≤ r ∧ r < 2 + p.assets + p.tree.rows + p.assets then
        -x.coord (0 + (r - (2 + p.assets + p.tree.rows))) else 0) +
      (if 2 + p.assets + p.tree.rows + p.assets ≤ r ∧
          r < 2 + p.assets + p.tree.rows + p.assets + p.assets then
        -x.coord (p.assets + (r - (2 + p.assets + p.tree.rows + p.assets))) else 0) +
      (if 1 ≤ r ∧ r < 1 + 1 then -x.coord (2 * p.assets + p.auxiliaries + (r - 1)) else 0) := by
  simp only [system, List.map_cons, List.map_nil, List.sum_cons, List.sum_nil, Block.rowPart_rect,
    Block.rowPart_unit, Block.rowPart_sym, hp.order_riskRoot, GrowthTree.rows_matrix, reduceIte,
    Bool.false_eq_true, one_mul, neg_one_mul, add_zero, add_assoc]

/-! ## Rows -/

section Rows

variable (hp : p.Sized) (x : Column ℝ)

include hp

theorem slack_zero : (p.conic.slack x).coord 0 = 1 := by
  rw [coord_slack x (by rw [rows]; omega), sum_rightHand hp, sum_system hp]
  simp (disch := omega) only [if_neg, if_true]
  ring

theorem slack_one : (p.conic.slack x).coord 1 = x.coord (2 * p.assets + p.auxiliaries) := by
  rw [coord_slack x (by rw [rows]; omega), sum_rightHand hp, sum_system hp]
  simp (disch := omega) only [if_pos, if_neg, Nat.sub_self]
  ring_nf

theorem slack_risk {i : ℕ} (hi : i < p.assets) :
    (p.conic.slack x).coord (2 + i) =
      p.riskNow.coord i - p.riskRoot.rowDot i x 0 + p.riskRoot.rowDot i x p.assets := by
  rw [coord_slack x (by rw [rows]; omega), sum_rightHand hp, sum_system hp]
  simp (disch := omega) only [if_pos, if_neg, Nat.add_sub_cancel_left]
  ring

theorem slack_tree {k : ℕ} (hk : k < p.tree.rows) :
    (p.conic.slack x).coord (2 + p.assets + k) = (p.tree.slack x).coord k := by
  rw [coord_slack x (by rw [rows]; omega), sum_rightHand hp, sum_system hp, GrowthTree.slack,
    Column.coord_tabulate, if_pos hk]
  simp (disch := omega) only [if_pos, if_neg, Nat.add_sub_cancel_left]
  ring

theorem slack_delta {i : ℕ} (hi : i < p.assets) :
    (p.conic.slack x).coord (2 + p.assets + p.tree.rows + i) = x.coord i := by
  rw [coord_slack x (by rw [rows]; omega), sum_rightHand hp, sum_system hp]
  simp (disch := omega) only [if_pos, if_neg, Nat.add_sub_cancel_left, Nat.zero_add]
  ring

theorem slack_lam {i : ℕ} (hi : i < p.assets) :
    (p.conic.slack x).coord (2 + p.assets + p.tree.rows + p.assets + i) =
      x.coord (p.assets + i) := by
  rw [coord_slack x (by rw [rows]; omega), sum_rightHand hp, sum_system hp]
  simp (disch := omega) only [if_pos, if_neg, Nat.add_sub_cancel_left]
  ring

end Rows

theorem costAt_conic (p : TradeProgram ℝ) (x : Column ℝ) :
    p.conic.costAt x =
      ∑ i ∈ range p.assets, p.returns.coord i * x.coord i -
        ∑ i ∈ range p.assets, p.returns.coord i * x.coord (p.assets + i) +
          x.coord (2 * p.assets + p.auxiliaries) := by
  have hcol : 0 < p.conic.cost.cols := Nat.one_pos
  rw [ConicProgram.costAt, Operator.coord_transMulAdd _ _ _ _ _ hcol]
  simp only [conic, cost, List.map_cons, List.map_nil, List.sum_cons, List.sum_nil, Block.colPart,
    Block.meetsCol, BlockBody.cols, BlockBody.colDot, Nat.sub_self, RectMatrix.colDot_ofColumn,
    Block.sign]
  simp [RectMatrix.ofColumn, assets]
  ring

/-! ## Points -/

/-- The bound `t` on the variance of a point. -/
noncomputable def bound (p : TradeProgram ℝ) (x : Column ℝ) : ℝ :=
  x.coord (2 * p.assets + p.auxiliaries)

/-- The entry of `S (z - δ + λ)` for an asset. -/
noncomputable def risk (p : TradeProgram ℝ) (x : Column ℝ) (i : ℕ) : ℝ :=
  p.riskNow.coord i - p.riskRoot.rowDot i x 0 + p.riskRoot.rowDot i x p.assets

/-- The conditions that a point of the program meets. -/
structure Meets (p : TradeProgram ℝ) (x : Column ℝ) : Prop where
  bound_nonneg : 0 ≤ p.bound x
  risk_sq_le : ∑ i ∈ range p.assets, p.risk x i ^ 2 ≤ 2 * p.bound x
  inCones : GrowthTree.InCones p.tree.inner (p.tree.slack x)
  delta_nonneg : ∀ i < p.assets, 0 ≤ x.coord i
  lam_nonneg : ∀ i < p.assets, 0 ≤ x.coord (p.assets + i)

section Points

variable (hp : p.Sized) (x : Column ℝ)

include hp

/-- The first cone bounds half of the squared risk by the variable `t`. -/
theorem risk_inRotated_iff :
    ((p.conic.slack x).slice 0 (2 + p.assets)).InRotated ↔
      0 ≤ p.bound x ∧ ∑ i ∈ range p.assets, p.risk x i ^ 2 ≤ 2 * p.bound x := by
  have hrisk : ∀ i ∈ range p.assets, (p.conic.slack x).coord (0 + 2 + i) ^ 2 = p.risk x i ^ 2 := by
    intro i hi
    rw [Nat.zero_add, slack_risk hp x (mem_range.mp hi), risk]
  rw [Nat.add_comm 2, Column.slice_inRotated_iff, sum_congr rfl hrisk, slack_zero hp, Nat.zero_add,
    slack_one hp, ← bound, mul_one]
  exact and_iff_right zero_le_one

/-- The cones of three rows after it and the half line are those of the tree. -/
theorem tree_inRotated_iff :
    ((∀ k < p.tree.inner, ((p.conic.slack x).slice (2 + p.assets + 3 * k) 3).InRotated) ∧
        0 ≤ (p.conic.slack x).coord (2 + p.assets + 3 * p.tree.inner)) ↔
      GrowthTree.InCones p.tree.inner (p.tree.slack x) := by
  have hrow : ∀ k, k < p.tree.rows →
      (p.conic.slack x).coord (2 + p.assets + k) = (p.tree.slack x).coord k :=
    fun k hk => slack_tree hp x hk
  have hcone : ∀ k < p.tree.inner,
      (((p.conic.slack x).slice (2 + p.assets + 3 * k) 3).InRotated ↔
        GrowthTree.InCone (p.tree.slack x) k) := by
    intro k hk
    have hlast : 3 * k + 2 < p.tree.rows := by rw [GrowthTree.rows]; omega
    have hassoc : ∀ j, 2 + p.assets + 3 * k + j = 2 + p.assets + (3 * k + j) := Nat.add_assoc _ _
    rw [Column.slice_inRotated_iff, sum_range_one, add_zero, hassoc, hassoc, hrow _ (by omega),
      hrow _ (by omega), hrow _ hlast]
    constructor
    · rintro ⟨hleft, hright, htip⟩
      exact ⟨hleft, hright, htip⟩
    · rintro ⟨hleft, hright, htip⟩
      exact ⟨hleft, hright, htip⟩
  rw [hrow _ (by rw [GrowthTree.rows]; omega), GrowthTree.inCones_iff]
  exact and_congr_left' (forall₂_congr hcone)

/-- After the half line the orthant holds the two columns of the trade. -/
theorem orthant_iff :
    (∀ i < 1 + 2 * p.assets,
        0 ≤ (p.conic.slack x).coord (2 + p.assets + 3 * p.tree.inner + i)) ↔
      0 ≤ (p.conic.slack x).coord (2 + p.assets + 3 * p.tree.inner) ∧
        (∀ i < p.assets, 0 ≤ x.coord i) ∧ ∀ i < p.assets, 0 ≤ x.coord (p.assets + i) := by
  have hdelta : ∀ i < p.assets,
      (p.conic.slack x).coord (2 + p.assets + 3 * p.tree.inner + (1 + i)) = x.coord i := by
    intro i hi
    rw [← slack_delta hp x hi, GrowthTree.rows]
    congr 1
    ring
  have hlam : ∀ i < p.assets,
      (p.conic.slack x).coord (2 + p.assets + 3 * p.tree.inner + (1 + p.assets + i)) =
        x.coord (p.assets + i) := by
    intro i hi
    rw [← slack_lam hp x hi, GrowthTree.rows]
    congr 1
    ring
  constructor
  · intro h
    refine ⟨h 0 (by omega), fun i hi => ?_, fun i hi => ?_⟩
    · exact hdelta i hi ▸ h (1 + i) (by omega)
    · exact hlam i hi ▸ h (1 + p.assets + i) (by omega)
  · rintro ⟨hroot, hd, hl⟩ i hi
    -- The row is the root row of the tree, or it belongs to `δ`, or to `λ`.
    rcases Nat.eq_zero_or_pos i with rfl | hpos
    · exact hroot
    obtain ⟨k, rfl⟩ := Nat.exists_eq_add_of_le hpos
    rcases lt_or_ge k p.assets with hk | hk
    · exact (hdelta k hk).symm ▸ hd k hk
    obtain ⟨j, rfl⟩ := Nat.exists_eq_add_of_le hk
    have hj : j < p.assets := by omega
    exact Nat.add_assoc 1 p.assets j ▸ (hlam j hj).symm ▸ hl j hj

/-- The points of the program are the columns of its variables that meet the
conditions. -/
theorem feasible_iff : p.conic.Feasible x ↔ x.size = p.cols ∧ p.Meets x := by
  have hdim : (p.conic.slack x).size = p.conic.cone.dim := by
    rw [ConicProgram.slack, Operator.size_mulAdd, ProductCone.dim_eq]
    simp [conic, system, cone, rows, GrowthTree.rows, auxiliaries]
    ring
  have hcone : p.conic.cone.Contains (p.conic.slack x) ↔
      ((p.conic.slack x).slice 0 (2 + p.assets)).InRotated ∧
        (∀ k < p.tree.inner, ((p.conic.slack x).slice (2 + p.assets + 3 * k) 3).InRotated) ∧
          ∀ i < 1 + 2 * p.assets,
            0 ≤ (p.conic.slack x).coord (2 + p.assets + 3 * p.tree.inner + i) := by
    rw [ProductCone.Contains, and_iff_right hdim]
    change ProductCone.ContainsFrom _ 0 ((2 + p.assets) :: List.replicate p.auxiliaries 3) _ ↔ _
    rw [ProductCone.ContainsFrom, ProductCone.containsFrom_replicate, Nat.zero_add]
    rfl
  refine and_congr Iff.rfl ?_
  -- The root row stands in the orthant, so it moves over to the cones of the tree.
  rw [hcone, orthant_iff hp, risk_inRotated_iff hp, ← and_assoc (a := ∀ k < _, _),
    tree_inRotated_iff hp]
  constructor
  · rintro ⟨⟨hbound, hrisk⟩, hcones, hd, hl⟩
    exact ⟨hbound, hrisk, hcones, hd, hl⟩
  · intro h
    exact ⟨⟨h.bound_nonneg, h.risk_sq_le⟩, h.inCones, h.delta_nonneg, h.lam_nonneg⟩

end Points

end TradeProgram

end Rebalancing
