-- SUMMARY: The tight values of a growth tree are not below zero, make every inner node the geometric mean of its children, and the root that of the leaves.
import Mathlib
import Rebalancing.Proofs.GrowthTree.LevelProduct
import Rebalancing.Proofs.GrowthTree.Rows

/-!
# Tight values

The tight values are computed from the leaves upwards, and the rows of the tree
are written from the root downwards. Both number the nodes as a heap, so a node
of the one is a node of the other.
-/

open Finset

namespace Rebalancing

namespace GrowthTree

/-! ## Values from the leaves upwards -/

section AnyScalar

variable {F : Type} [Scalar F] {inner : ℕ} {leaf : ℕ → F}

theorem tightValue_of_lt {j : ℕ} (h : j < inner) :
    tightValue inner leaf j =
      Scalar.sqrt (tightValue inner leaf (2 * j + 1) * tightValue inner leaf (2 * j + 2)) := by
  rw [tightValue, if_pos h]

theorem tightValue_leaf (i : ℕ) : tightValue inner leaf (inner + i) = leaf i := by
  rw [tightValue, if_neg (by omega), Nat.add_sub_cancel_left]

@[simp] theorem size_tight (t : GrowthTree F) (leaves : Column F) (pad : F) :
    (t.tight leaves pad).size = t.inner := by
  simp [tight]

end AnyScalar

section TightValue

variable {inner : ℕ} {leaf : ℕ → ℝ}

theorem tightValue_inner {j : ℕ} (h : j < inner) :
    tightValue inner leaf j =
      √(tightValue inner leaf (2 * j + 1) * tightValue inner leaf (2 * j + 2)) :=
  tightValue_of_lt h

theorem tightValue_nonneg (hleaf : ∀ i, 0 ≤ leaf i) (j : ℕ) : 0 ≤ tightValue inner leaf j := by
  rcases lt_or_ge j inner with h | h
  · rw [tightValue_inner h]
    exact Real.sqrt_nonneg _
  · obtain ⟨i, rfl⟩ := Nat.exists_eq_add_of_le h
    rw [tightValue_leaf]
    exact hleaf i

theorem tightValue_sq (hleaf : ∀ i, 0 ≤ leaf i) {j : ℕ} (h : j < inner) :
    tightValue inner leaf j ^ 2 =
      tightValue inner leaf (2 * j + 1) * tightValue inner leaf (2 * j + 2) := by
  rw [tightValue_inner h, Real.sq_sqrt]
  exact mul_nonneg (tightValue_nonneg hleaf _) (tightValue_nonneg hleaf _)

end TightValue

/-! ## Tight values as variables of the tree -/

variable (t : GrowthTree ℝ)

/-- The leaves of the tree: those of the assets, then the floor. -/
noncomputable def paddedLeaf (leaves : Column ℝ) (i : ℕ) : ℝ :=
  if i < t.assets then leaves.coord i else t.floor

theorem coord_tight {k : ℕ} (h : k < t.inner) (leaves : Column ℝ) :
    (t.tight leaves t.floor).coord k = tightValue t.inner (t.paddedLeaf leaves) k := by
  rw [tight, Column.coord_tabulate, if_pos h]
  rfl

theorem paddedLeaf_nonneg {leaves : Column ℝ} (hleaves : ∀ i < t.assets, 0 ≤ leaves.coord i)
    (hfloor : 0 ≤ t.floor) (i : ℕ) : 0 ≤ t.paddedLeaf leaves i := by
  unfold paddedLeaf
  split
  · exact hleaves i ‹_›
  · exact hfloor

theorem nodeValue_leaf {x leaves : Column ℝ}
    (hleaves : ∀ i < t.assets, t.nodeValue x (t.inner + i) = leaves.coord i) (i : ℕ) :
    t.nodeValue x (t.inner + i) = t.paddedLeaf leaves i := by
  unfold paddedLeaf
  split
  · exact hleaves i ‹_›
  · exact t.nodeValue_padding x (not_lt.mp ‹_›)

/-- Variables that hold the tight values for their own leaves give every node its
tight value. -/
theorem nodeValue_eq_tightValue {x leaves : Column ℝ}
    (hleaves : ∀ i < t.assets, t.nodeValue x (t.inner + i) = leaves.coord i)
    (htight : ∀ k < t.inner, x.coord (2 * t.assets + k) = (t.tight leaves t.floor).coord k)
    (j : ℕ) : t.nodeValue x j = tightValue t.inner (t.paddedLeaf leaves) j := by
  rcases lt_or_ge j t.inner with h | h
  · rw [t.nodeValue_inner x h, htight j h, t.coord_tight h]
  obtain ⟨i, rfl⟩ := Nat.exists_eq_add_of_le h
  rw [tightValue_leaf, t.nodeValue_leaf hleaves]

end GrowthTree

end Rebalancing
