-- SUMMARY: Certificates of conic linear programs over the reals: what shows that a program has no point, and what shows that its cost has no bound.
import Mathlib
import Rebalancing.Proofs.Conic.Duality
import Rebalancing.Proofs.Conic.OperatorMatrix

/-!
# Certificates of conic programs

A solver that gives up on a program can say why. A column of the dual cone refutes
every point at once where `Aᵀ y` vanishes and `bᵀ y` is below zero. A direction whose
image `-A d` lies in the cone, and along which the cost falls, leads from every point
to points of any cost. Here both are defined through the products of the program's own
operators, and it is shown what each of them excludes.
-/

open Finset

namespace Rebalancing

/-! ## Products as sums of cells -/

namespace Operator

section Sums

variable {op : Operator ℝ} (h : ∀ b ∈ op.blocks, b.Within op.rows op.cols) (a : ℝ)
  (x : Column ℝ) (b : ℝ) (y : Column ℝ)

include h

theorem coord_mulAdd_eq_sum {r : ℕ} (hr : r < op.rows) :
    (op.mulAdd a x b y).coord r =
      a * (∑ c ∈ range op.cols, op.entry r c * x.coord c) + b * y.coord r := by
  rw [sum_range]
  exact congrFun (vec_mulAdd h a x b y) ⟨r, hr⟩

theorem coord_transMulAdd_eq_sum {c : ℕ} (hc : c < op.cols) :
    (op.transMulAdd a x b y).coord c =
      a * (∑ r ∈ range op.rows, op.entry r c * x.coord r) + b * y.coord c := by
  rw [sum_range]
  exact congrFun (vec_transMulAdd h a x b y) ⟨c, hc⟩

end Sums

/-- The two products of an operator are adjoint. -/
theorem product_mulAdd {op : Operator ℝ} (h : ∀ b ∈ op.blocks, b.Within op.rows op.cols)
    (x y v w : Column ℝ) :
    (op.mulAdd 1 x 0 v).product y 0 op.rows = x.product (op.transMulAdd 1 y 0 w) 0 op.cols := by
  simp only [Column.product, Nat.zero_add]
  calc ∑ r ∈ range op.rows, (op.mulAdd 1 x 0 v).coord r * y.coord r
      = ∑ r ∈ range op.rows, ∑ c ∈ range op.cols, op.entry r c * x.coord c * y.coord r := by
        apply sum_congr rfl
        intro r hr
        rw [coord_mulAdd_eq_sum h 1 x 0 v (mem_range.mp hr), one_mul, zero_mul, add_zero, sum_mul]
    _ = ∑ c ∈ range op.cols, ∑ r ∈ range op.rows, op.entry r c * x.coord c * y.coord r := sum_comm
    _ = ∑ c ∈ range op.cols, x.coord c * (op.transMulAdd 1 y 0 w).coord c := by
        apply sum_congr rfl
        intro c hc
        rw [coord_transMulAdd_eq_sum h 1 y 0 w (mem_range.mp hc), one_mul, zero_mul, add_zero,
          mul_sum]
        exact sum_congr rfl fun r _ => by ring

end Operator

namespace ConicProgram

/-! ## Programs that fit together -/

/-- The blocks of every operator lie inside it, and the operators and the cone are of
sizes that match. -/
structure Consistent {F : Type} (p : ConicProgram F) : Prop where
  within_cost : ∀ b ∈ p.cost.blocks, b.Within p.cost.rows p.cost.cols
  within_system : ∀ b ∈ p.system.blocks, b.Within p.system.rows p.system.cols
  within_rightHand : ∀ b ∈ p.rightHand.blocks, b.Within p.rightHand.rows p.rightHand.cols
  rows_cost : p.cost.rows = p.system.cols
  cols_cost : p.cost.cols = 1
  rows_rightHand : p.rightHand.rows = p.system.rows
  cols_rightHand : p.rightHand.cols = 1
  dim_cone : p.cone.dim = p.system.rows

variable {p : ConicProgram ℝ}

/-- What `-A d` adds to the slack along a direction. -/
noncomputable def drift (p : ConicProgram ℝ) (d : Column ℝ) : Column ℝ :=
  p.system.mulAdd (-1) d 0 (Column.zeros p.system.rows)

section Lines

variable (hp : p.Consistent) {x d y : Column ℝ} {a : ℝ}

/-- Sums with fixed factors are linear in the column. -/
theorem sum_of_line (factor : ℕ → ℝ) {n : ℕ}
    (hy : ∀ c < n, y.coord c = x.coord c + a * d.coord c) :
    ∑ c ∈ range n, factor c * y.coord c =
      ∑ c ∈ range n, factor c * x.coord c + a * ∑ c ∈ range n, factor c * d.coord c := by
  rw [mul_sum, ← sum_add_distrib]
  apply sum_congr rfl
  intro c hc
  rw [hy c (mem_range.mp hc)]
  ring

include hp

/-- The cost is linear. -/
theorem costAt_of_line (hy : ∀ c < p.system.cols, y.coord c = x.coord c + a * d.coord c) :
    p.costAt y = p.costAt x + a * p.costAt d := by
  have hcost : ∀ v : Column ℝ,
      p.costAt v = ∑ r ∈ range p.system.cols, p.cost.entry r 0 * v.coord r := by
    intro v
    rw [costAt, Operator.coord_transMulAdd_eq_sum hp.within_cost _ _ _ _
      (hp.cols_cost ▸ Nat.one_pos), hp.rows_cost, one_mul, zero_mul, add_zero]
  rw [hcost, hcost, hcost, sum_of_line _ hy]

/-- The slack follows a line with the drift of its direction. -/
theorem slack_of_line (hy : ∀ c < p.system.cols, y.coord c = x.coord c + a * d.coord c) {r : ℕ}
    (hr : r < p.system.rows) :
    (p.slack y).coord r = (p.slack x).coord r + a * (p.drift d).coord r := by
  rw [slack, slack, drift, Operator.coord_mulAdd_eq_sum hp.within_system _ _ _ _ hr,
    Operator.coord_mulAdd_eq_sum hp.within_system _ _ _ _ hr,
    Operator.coord_mulAdd_eq_sum hp.within_system _ _ _ _ hr, sum_of_line _ hy]
  ring

end Lines

/-! ## Programs without a point -/

/-- A column of the dual cone for which `Aᵀ y` vanishes and `bᵀ y` is below zero. -/
structure RefutedBy (p : ConicProgram ℝ) (y : Column ℝ) : Prop where
  dual : p.cone.DualContains y
  system_eq_zero : p.system.transMulAdd 1 y 0 (Column.zeros p.system.cols) =
    Column.zeros p.system.cols
  rightHand_neg : (p.rightHand.transMulAdd 1 y 0 (Column.zeros p.rightHand.cols)).coord 0 < 0

/-- The product of a slack with a column is `bᵀ y - xᵀ (Aᵀ y)`. -/
theorem product_slack (hp : p.Consistent) (x y : Column ℝ) :
    (p.slack x).product y 0 p.cone.dim =
      (p.rightHand.transMulAdd 1 y 0 (Column.zeros p.rightHand.cols)).coord 0 -
        x.product (p.system.transMulAdd 1 y 0 (Column.zeros p.system.cols)) 0 p.system.cols := by
  let image := p.system.mulAdd 1 x 0 (Column.zeros p.system.rows)
  let start := p.rightHand.mulAdd 1 #[1] 0 (Column.zeros p.rightHand.rows)
  have hrow : ∀ r < p.system.rows, (p.slack x).coord r = -1 * image.coord r + 1 * start.coord r := by
    intro r hr
    rw [slack, Operator.coord_mulAdd_eq_sum hp.within_system _ _ _ _ hr,
      Operator.coord_mulAdd_eq_sum hp.within_system _ _ _ _ hr]
    ring
  have hstart : start.product y 0 p.system.rows =
      (p.rightHand.transMulAdd 1 y 0 (Column.zeros p.rightHand.cols)).coord 0 := by
    rw [← hp.rows_rightHand, Operator.product_mulAdd hp.within_rightHand _ _ _
      (Column.zeros p.rightHand.cols), hp.cols_rightHand, Column.product, sum_range_one]
    exact one_mul _
  have himage : image.product y 0 p.system.rows =
      x.product (p.system.transMulAdd 1 y 0 (Column.zeros p.system.cols)) 0 p.system.cols :=
    Operator.product_mulAdd hp.within_system _ _ _ _
  have hcomm : ∀ v w : Column ℝ, v.product w 0 p.system.rows = w.product v 0 p.system.rows :=
    fun v w => sum_congr rfl fun r _ => mul_comm _ _
  rw [hp.dim_cone, hcomm, ProductCone.product_combination y hrow, hcomm y image, hcomm y start,
    hstart, himage]
  ring

/-- A program that has a point is not refuted. -/
theorem Feasible.not_refutedBy (hp : p.Consistent) {x : Column ℝ} (hx : p.Feasible x)
    (y : Column ℝ) : ¬ p.RefutedBy y := by
  intro h
  have hnonneg : 0 ≤ (p.slack x).product y 0 p.cone.dim := h.dual.2 _ hx.2
  have hneg := h.rightHand_neg
  have hzero : x.product (Column.zeros p.system.cols) 0 p.system.cols = 0 :=
    sum_eq_zero fun i _ => by rw [Column.coord_zeros, mul_zero]
  rw [product_slack hp, h.system_eq_zero, hzero, sub_zero] at hnonneg
  exact absurd hneg (not_lt.mpr hnonneg)

/-! ## Programs without a bound -/

/-- A direction that never leaves the cone and along which the cost falls. -/
structure IsRay (p : ConicProgram ℝ) (d : Column ℝ) : Prop where
  size_eq : d.size = p.system.cols
  contains : p.cone.Contains (p.drift d)
  costAt_neg : p.costAt d < 0

section Rays

variable (hp : p.Consistent) {x d : Column ℝ}

include hp

/-- From a point on, a ray leads to points below every bound. -/
theorem IsRay.exists_costAt_lt (hd : p.IsRay d) (hx : p.Feasible x) (bound : ℝ) :
    ∃ y, p.Feasible y ∧ p.costAt y < bound := by
  -- Far enough along the ray to fall by more than the distance to the bound.
  obtain ⟨a, ha, hfall⟩ : ∃ a : ℝ, 0 ≤ a ∧ a * p.costAt d = -(|p.costAt x - bound| + 1) := by
    refine ⟨(|p.costAt x - bound| + 1) / -p.costAt d, ?_, ?_⟩
    · exact div_nonneg (by positivity) (by linarith [hd.costAt_neg])
    · rw [div_neg, neg_mul, div_mul_cancel₀ _ hd.costAt_neg.ne]
  let y : Column ℝ := Column.tabulate p.system.cols fun c => x.coord c + a * d.coord c
  have hy : ∀ c < p.system.cols, y.coord c = x.coord c + a * d.coord c := by
    intro c hc
    rw [Column.coord_tabulate, if_pos hc]
  refine ⟨y, ⟨Column.size_tabulate _ _, ?_⟩, ?_⟩
  · refine hx.2.combine hd.contains zero_le_one ha ?_ fun r hr => ?_
    · rw [slack, Operator.size_mulAdd, hp.dim_cone]
    · rw [slack_of_line hp hy (hp.dim_cone ▸ hr), one_mul]
  · rw [costAt_of_line hp hy, hfall]
    linarith [le_abs_self (p.costAt x - bound)]

/-- A direction along which a point never leaves the program is a ray, if the cost
falls. -/
theorem isRay_of_forall_feasible (hsize : d.size = p.system.cols)
    (hline : ∀ a : ℝ, 0 ≤ a →
      ∃ y, p.Feasible y ∧ ∀ c < p.system.cols, y.coord c = x.coord c + a * d.coord c)
    (hcost : p.costAt d < 0) : p.IsRay d := by
  refine ⟨hsize, ?_, hcost⟩
  refine ProductCone.contains_of_forall_add (x := p.slack x) ?_ fun a ha => ?_
  · rw [drift, Operator.size_mulAdd, hp.dim_cone]
  · obtain ⟨y, hfeasible, hy⟩ := hline a ha
    exact ⟨p.slack y, hfeasible.2, fun r hr => slack_of_line hp hy (hp.dim_cone ▸ hr)⟩

end Rays

end ConicProgram

end Rebalancing
