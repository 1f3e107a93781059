-- SUMMARY: What the rows of a growth tree read: the value of a node, or the tip of a cone.
import Mathlib
import Rebalancing.GrowthTree
import Rebalancing.Proofs.ExactScalar

/-!
# Rows of a growth tree

The system of a growth tree is written cell by cell. Over the reals each of its
rows reads one number off the variables `[δ; λ; u]`: what stands at a node, or
the tip of the cone of an inner node. The cones of the tree then relate the
values of nodes and their children, and nothing else.
-/

open Finset

namespace Rebalancing

namespace GrowthTree

/-- The rows `s = h - G x`. -/
def slack {F : Type} [Scalar F] (t : GrowthTree F) (x : Column F) : Column F :=
  Column.tabulate t.rows fun r => t.constants.coord r - t.matrix.rowDot r x 0

/-- What stands at node `j` when the variables are `x`. -/
noncomputable def nodeValue (t : GrowthTree ℝ) (x : Column ℝ) (j : ℕ) : ℝ :=
  match t.node j with
  | .inner k => x.coord (2 * t.assets + k)
  | .asset i => t.growth.coord i + t.coupling * x.coord i - x.coord (t.assets + i)
  | .padding => t.floor

/-- The rows lie in the cones of the tree: every three rows of an inner node in
a rotated quadratic cone, and the last row in the half line. -/
structure InCones (inner : ℕ) (s : Column ℝ) : Prop where
  left_nonneg : ∀ k < inner, 0 ≤ s.coord (3 * k)
  right_nonneg : ∀ k < inner, 0 ≤ s.coord (3 * k + 1)
  tip_sq_le : ∀ k < inner, s.coord (3 * k + 2) ^ 2 ≤ 2 * s.coord (3 * k) * s.coord (3 * k + 1)
  root_nonneg : 0 ≤ s.coord (3 * inner)

/-- The three rows of inner node `k` lie in the rotated quadratic cone. -/
structure InCone (s : Column ℝ) (k : ℕ) : Prop where
  left_nonneg : 0 ≤ s.coord (3 * k)
  right_nonneg : 0 ≤ s.coord (3 * k + 1)
  tip_sq_le : s.coord (3 * k + 2) ^ 2 ≤ 2 * s.coord (3 * k) * s.coord (3 * k + 1)

/-! ## Depth -/

theorem le_two_pow_depth (n : ℕ) : n ≤ 2 ^ depth n := by
  unfold depth
  split
  · simpa using ‹n ≤ 1›
  · have hlog := Nat.lt_log2_self (n := n - 1)
    omega

theorem two_pow_depth_lt {n : ℕ} (h : 0 < n) : 2 ^ depth n < 2 * n := by
  unfold depth
  split
  · simp
    omega
  · have hlog := Nat.log2_self_le (n := n - 1) (by omega)
    rw [pow_succ]
    omega

/-! ## Nodes -/

section Nodes

variable {F : Type} (t : GrowthTree F)

theorem leaves_eq : t.leaves = 2 ^ depth t.assets := rfl

theorem inner_succ : t.inner + 1 = t.leaves := by
  have := Nat.two_pow_pos (depth t.assets)
  rw [inner, leaves_eq]
  omega

theorem assets_le_leaves : t.assets ≤ t.leaves := le_two_pow_depth _

theorem node_inner {j : ℕ} (h : j < t.inner) : t.node j = .inner j := by
  rw [node, if_pos h]

theorem node_asset {i : ℕ} (h : i < t.assets) : t.node (t.inner + i) = .asset i := by
  rw [node, if_neg (by omega), Nat.add_sub_cancel_left, if_pos h]

theorem node_padding {i : ℕ} (h : t.assets ≤ i) : t.node (t.inner + i) = .padding := by
  rw [node, if_neg (by omega), Nat.add_sub_cancel_left, if_neg (by omega)]

theorem row_left {k : ℕ} (h : k < t.inner) : t.row (3 * k) = .value (2 * k + 1) := by
  have hmod : 3 * k % 3 = 0 := by omega
  have hdiv : 3 * k / 3 = k := by omega
  simp only [row, coneRow, hmod, hdiv, ite_eq_left_iff]
  omega

theorem row_right {k : ℕ} (h : k < t.inner) : t.row (3 * k + 1) = .value (2 * k + 2) := by
  have hmod : (3 * k + 1) % 3 = 1 := by omega
  have hdiv : (3 * k + 1) / 3 = k := by omega
  simp only [row, coneRow, hmod, hdiv, ite_eq_left_iff]
  omega

theorem row_tip {k : ℕ} (h : k < t.inner) : t.row (3 * k + 2) = .tip k := by
  have hmod : (3 * k + 2) % 3 = 2 := by omega
  have hdiv : (3 * k + 2) / 3 = k := by omega
  simp only [row, coneRow, hmod, hdiv, ite_eq_left_iff]
  omega

theorem row_root : t.row (3 * t.inner) = .value 0 := by
  rw [row, if_neg (lt_irrefl _)]

end Nodes

variable (t : GrowthTree ℝ) (x : Column ℝ)

section NodeValues

theorem nodeValue_inner {j : ℕ} (h : j < t.inner) :
    t.nodeValue x j = x.coord (2 * t.assets + j) := by
  rw [nodeValue, t.node_inner h]

theorem nodeValue_asset {i : ℕ} (h : i < t.assets) :
    t.nodeValue x (t.inner + i) =
      t.growth.coord i + t.coupling * x.coord i - x.coord (t.assets + i) := by
  rw [nodeValue, t.node_asset h]

theorem nodeValue_padding {i : ℕ} (h : t.assets ≤ i) :
    t.nodeValue x (t.inner + i) = t.floor := by
  rw [nodeValue, t.node_padding h]

end NodeValues

/-! ## Products of the rows -/

/-- A row with one factor reads one entry. -/
theorem sum_single_mul {n a : ℕ} (ha : a < n) (v : ℝ) (f : ℕ → ℝ) :
    ∑ c ∈ range n, (if c = a then v else 0) * f c = v * f a := by
  simp [ite_mul, ha]

theorem rowDot_matrix {r : ℕ} (hr : r < t.rows) :
    t.matrix.rowDot r x 0 = ∑ c ∈ range t.cols, t.coefficient r c * x.coord c := by
  rw [RectMatrix.rowDot_real]
  apply sum_congr rfl
  intro c hc
  have hcol : c < t.cols := mem_range.mp hc
  rw [matrix, RectMatrix.entry_ofFn _ hr hcol, Nat.zero_add]

theorem rowDot_tip {r k : ℕ} (hr : r < t.rows) (hrow : t.row r = .tip k) (hk : k < t.inner) :
    t.matrix.rowDot r x 0 = -√2 * x.coord (2 * t.assets + k) := by
  have hcol : 2 * t.assets + k < t.cols := by rw [cols]; omega
  rw [rowDot_matrix t x hr, ← sum_single_mul hcol (-√2) fun c => x.coord c]
  simp only [coefficient, hrow, Scalar.two_real, Scalar.sqrt_real]

/-- The row of a node reads the node's value, less its constant. -/
theorem rowDot_value {r j : ℕ} (hr : r < t.rows) (hrow : t.row r = .value j) :
    t.matrix.rowDot r x 0 = t.nodeConstant j - t.nodeValue x j := by
  rw [rowDot_matrix t x hr]
  rcases lt_or_ge j t.inner with hj | hj
  · have hcol : 2 * t.assets + j < t.cols := by rw [cols]; omega
    have hsum := sum_single_mul hcol (-1) fun c => x.coord c
    simp only [coefficient, hrow, nodeConstant, nodeValue, t.node_inner hj, hsum]
    ring
  obtain ⟨i, rfl⟩ := Nat.exists_eq_add_of_le hj
  rcases lt_or_ge i t.assets with hi | hi
  · have hdelta : i < t.cols := by rw [cols]; omega
    have hlam : t.assets + i < t.cols := by rw [cols]; omega
    -- The two columns differ, so the row is the sum of two rows with one factor each.
    have hsplit : ∀ c, (if c = i then -t.coupling else if c = t.assets + i then 1 else 0) =
        (if c = i then -t.coupling else 0) + if c = t.assets + i then 1 else 0 := by
      intro c
      by_cases hc : c = i
      · have hne : c ≠ t.assets + i := by omega
        rw [if_pos hc, if_pos hc, if_neg hne, add_zero]
      · rw [if_neg hc, if_neg hc, zero_add]
    simp only [coefficient, hrow, nodeConstant, nodeValue, t.node_asset hi, hsplit, add_mul,
      sum_add_distrib, sum_single_mul hdelta, sum_single_mul hlam]
    ring
  · simp [coefficient, hrow, nodeConstant, nodeValue, t.node_padding hi]

/-! ## Rows in cones -/

theorem coord_slack {r : ℕ} (hr : r < t.rows) :
    (t.slack x).coord r = t.constant r - t.matrix.rowDot r x 0 := by
  rw [slack, Column.coord_tabulate, if_pos hr, constants, Column.coord_tabulate, if_pos hr]

/-- A row above the root row holds the constant of the node that it reads. -/
theorem constant_value {r j : ℕ} (h : r < 3 * t.inner) (hrow : t.row r = .value j) :
    t.constant r = t.nodeConstant j := by
  rw [row, if_pos h] at hrow
  simp only [constant, if_pos h, hrow]

theorem constant_tip {r k : ℕ} (h : r < 3 * t.inner) (hrow : t.row r = .tip k) :
    t.constant r = 0 := by
  rw [row, if_pos h] at hrow
  simp only [constant, if_pos h, hrow]

theorem constant_root : t.constant (3 * t.inner) = t.nodeConstant 0 - t.floor := by
  simp [constant]

theorem slack_value {r j : ℕ} (h : r < 3 * t.inner) (hrow : t.row r = .value j) :
    (t.slack x).coord r = t.nodeValue x j := by
  have hr : r < t.rows := by rw [rows]; omega
  rw [t.coord_slack x hr, t.constant_value h hrow, t.rowDot_value x hr hrow]
  ring

theorem slack_tip {k : ℕ} (h : k < t.inner) :
    (t.slack x).coord (3 * k + 2) = √2 * x.coord (2 * t.assets + k) := by
  have hr : 3 * k + 2 < t.rows := by rw [rows]; omega
  rw [t.coord_slack x hr, t.constant_tip (by omega) (t.row_tip h),
    t.rowDot_tip x hr (t.row_tip h) h]
  ring

theorem slack_root : (t.slack x).coord (3 * t.inner) = t.nodeValue x 0 - t.floor := by
  have hr : 3 * t.inner < t.rows := by rw [rows]; omega
  rw [t.coord_slack x hr, t.constant_root, t.rowDot_value x hr t.row_root]
  ring

/-- The factor `√2` of a tip is the one that the rotated cone has on its other side. -/
theorem slack_tip_sq {k : ℕ} (h : k < t.inner) :
    (t.slack x).coord (3 * k + 2) ^ 2 = 2 * t.nodeValue x k ^ 2 := by
  rw [t.slack_tip x h, t.nodeValue_inner x h, mul_pow, Real.sq_sqrt zero_le_two]

/-- The rows of an inner node lie in their cone when its children are not below zero and
its square is at most their product. -/
theorem inCone_slack_iff {k : ℕ} (h : k < t.inner) :
    InCone (t.slack x) k ↔ 0 ≤ t.nodeValue x (2 * k + 1) ∧ 0 ≤ t.nodeValue x (2 * k + 2) ∧
      t.nodeValue x k ^ 2 ≤ t.nodeValue x (2 * k + 1) * t.nodeValue x (2 * k + 2) := by
  have hleft := t.slack_value x (by omega) (t.row_left h)
  have hright := t.slack_value x (by omega) (t.row_right h)
  have htip := t.slack_tip_sq x h
  constructor
  · rintro ⟨hl, hr, hsq⟩
    rw [hleft] at hl
    rw [hright] at hr
    rw [htip, hleft, hright] at hsq
    exact ⟨hl, hr, by linarith⟩
  · rintro ⟨hl, hr, hsq⟩
    refine ⟨hleft ▸ hl, hright ▸ hr, ?_⟩
    rw [htip, hleft, hright]
    linarith

theorem inCones_iff {inner : ℕ} {s : Column ℝ} :
    InCones inner s ↔ (∀ k < inner, InCone s k) ∧ 0 ≤ s.coord (3 * inner) := by
  constructor
  · intro h
    exact ⟨fun k hk => ⟨h.left_nonneg k hk, h.right_nonneg k hk, h.tip_sq_le k hk⟩, h.root_nonneg⟩
  · rintro ⟨hcones, hroot⟩
    exact ⟨fun k hk => (hcones k hk).left_nonneg, fun k hk => (hcones k hk).right_nonneg,
      fun k hk => (hcones k hk).tip_sq_le, hroot⟩

/-- The rows lie in the cones of the tree when children are not below zero, the
square of every inner node is at most the product of its children, and the root
is at least the floor. -/
theorem inCones_slack_iff :
    InCones t.inner (t.slack x) ↔
      (∀ k < t.inner, 0 ≤ t.nodeValue x (2 * k + 1) ∧ 0 ≤ t.nodeValue x (2 * k + 2) ∧
        t.nodeValue x k ^ 2 ≤ t.nodeValue x (2 * k + 1) * t.nodeValue x (2 * k + 2)) ∧
      t.floor ≤ t.nodeValue x 0 := by
  rw [inCones_iff, slack_root, sub_nonneg]
  exact and_congr_left' (forall₂_congr fun k hk => t.inCone_slack_iff x hk)

end GrowthTree

end Rebalancing
