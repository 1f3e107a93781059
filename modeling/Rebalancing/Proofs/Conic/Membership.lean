-- SUMMARY: Membership in product cones, and the points and minimisers of conic linear programs over the reals.
import Mathlib
import Rebalancing.Conic.Program
import Rebalancing.Proofs.ExactScalar

/-!
# Points of conic programs

A point of a conic program is a column of its variables whose slack `b - A x`
lies in the cone of the program. The slack and the cost of a point are read
through the products of the program's own operators.
-/

open Finset

namespace Rebalancing

/-! ## Cones -/

/-- The rotated quadratic cone of the column's dimension: in dimension one it is
the half line. -/
def Column.InRotated (x : Column ℝ) : Prop :=
  match x.size with
  | 0 => True
  | 1 => 0 ≤ x.coord 0
  | n + 2 =>
    0 ≤ x.coord 0 ∧ 0 ≤ x.coord 1 ∧
      ∑ i ∈ range n, x.coord (i + 2) ^ 2 ≤ 2 * x.coord 0 * x.coord 1

theorem Column.inRotated_iff {x : Column ℝ} {n : ℕ} (h : x.size = n + 2) :
    x.InRotated ↔ 0 ≤ x.coord 0 ∧ 0 ≤ x.coord 1 ∧
      ∑ i ∈ range n, x.coord (i + 2) ^ 2 ≤ 2 * x.coord 0 * x.coord 1 := by
  rw [Column.InRotated, h]

/-- The entries of `x` from `start` on in rotated quadratic cones of some
dimensions, and then in an orthant. -/
def ProductCone.ContainsFrom (x : Column ℝ) : ℕ → List ℕ → ℕ → Prop
  | start, [], orthant => ∀ i < orthant, 0 ≤ x.coord (start + i)
  | start, k :: ks, orthant =>
    (x.slice start k).InRotated ∧ ContainsFrom x (start + k) ks orthant

theorem ProductCone.dim_eq (k : ProductCone) : k.dim = k.rotated.sum + k.orthant := rfl

/-- The column lies in the cone. -/
def ProductCone.Contains (k : ProductCone) (x : Column ℝ) : Prop :=
  x.size = k.dim ∧ ProductCone.ContainsFrom x 0 k.rotated k.orthant

/-- A slice of a column in a rotated quadratic cone, entry by entry. -/
theorem Column.slice_inRotated_iff (x : Column ℝ) (start n : ℕ) :
    (x.slice start (n + 2)).InRotated ↔ 0 ≤ x.coord start ∧ 0 ≤ x.coord (start + 1) ∧
      ∑ i ∈ range n, x.coord (start + 2 + i) ^ 2 ≤ 2 * x.coord start * x.coord (start + 1) := by
  rw [Column.inRotated_iff (Column.size_slice x start (n + 2)),
    x.coord_slice start (Nat.succ_pos _), x.coord_slice start (by omega : 1 < n + 2)]
  have hrest : ∀ i ∈ range n,
      (x.slice start (n + 2)).coord (i + 2) ^ 2 = x.coord (start + 2 + i) ^ 2 := by
    intro i hi
    have hlt : i + 2 < n + 2 := by have := mem_range.mp hi; omega
    rw [x.coord_slice start hlt, Nat.add_assoc, Nat.add_comm 2 i]
  rw [sum_congr rfl hrest]
  rfl

namespace ProductCone

/-- Cones of one dimension after each other take up slices of one length. -/
theorem containsFrom_replicate (x : Column ℝ) (k orthant : ℕ) (m start : ℕ) :
    ContainsFrom x start (List.replicate m k) orthant ↔
      (∀ j < m, (x.slice (start + k * j) k).InRotated) ∧
        ∀ i < orthant, 0 ≤ x.coord (start + k * m + i) := by
  induction m generalizing start with
  | zero => simp [ContainsFrom]
  | succ m ih =>
    rw [List.replicate_succ, ContainsFrom, ih, ← and_assoc]
    refine and_congr ⟨?_, ?_⟩ ?_
    · rintro ⟨hfirst, hrest⟩ j hj
      cases j with
      | zero => exact hfirst
      | succ j =>
        have hindex : start + k * (j + 1) = start + k + k * j := by ring
        exact hindex ▸ hrest j (by omega)
    · intro h
      refine ⟨h 0 m.succ_pos, fun j hj => ?_⟩
      have hindex : start + k + k * j = start + k * (j + 1) := by ring
      exact hindex ▸ h (j + 1) (by omega)
    · have hindex : start + k + k * m = start + k * (m + 1) := by ring
      rw [hindex]

end ProductCone

/-! ## Programs -/

namespace ConicProgram

section Products

variable {F : Type} [Scalar F]

/-- The slack `b - A x`. -/
def slack (p : ConicProgram F) (x : Column F) : Column F :=
  p.system.mulAdd (-1) x 1 (p.rightHand.mulAdd 1 #[1] 0 (Column.zeros p.rightHand.rows))

/-- The cost `cᵀ x`. -/
def costAt (p : ConicProgram F) (x : Column F) : F :=
  (p.cost.transMulAdd 1 x 0 (Column.zeros p.cost.cols)).coord 0

end Products

/-- The column is a point of the program. -/
def Feasible (p : ConicProgram ℝ) (x : Column ℝ) : Prop :=
  x.size = p.system.cols ∧ p.cone.Contains (p.slack x)

/-- The column is a point of the program of least cost. -/
structure IsMinimiser (p : ConicProgram ℝ) (x : Column ℝ) : Prop where
  feasible : p.Feasible x
  costAt_le : ∀ y, p.Feasible y → p.costAt x ≤ p.costAt y

end ConicProgram

end Rebalancing
