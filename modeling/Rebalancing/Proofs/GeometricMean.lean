-- SUMMARY: The geometric mean of positive reals, as the root of their product.
import Mathlib
import Rebalancing.GeometricMean
import Rebalancing.Proofs.ExactScalar

/-!
# Geometric means over the reals

The mean of logarithms is the logarithm of a root of the product, so geometric
means of columns of one length compare as their products do.
-/

open Finset

namespace Rebalancing

namespace Column

variable {v w : Column ℝ}

theorem geometricMean_real (h : 0 < v.size) :
    v.geometricMean = Real.exp ((∑ i ∈ range v.size, Real.log (v.coord i)) / v.size) := by
  have hempty : v.isEmpty = false := by simpa using Array.size_pos_iff.mp h
  rw [geometricMean, hempty, sumTo_real]
  rfl

theorem geometricMean_pos (h : 0 < v.size) : 0 < v.geometricMean :=
  geometricMean_real h ▸ Real.exp_pos _

/-- The geometric mean of positive numbers is the root of their product. -/
theorem geometricMean_pow (h : 0 < v.size) (hpos : ∀ i < v.size, 0 < v.coord i) :
    v.geometricMean ^ v.size = ∏ i ∈ range v.size, v.coord i := by
  have hsize : (v.size : ℝ) ≠ 0 := Nat.cast_ne_zero.mpr h.ne'
  calc v.geometricMean ^ v.size
      = Real.exp (∑ i ∈ range v.size, Real.log (v.coord i)) := by
        rw [geometricMean_real h, ← Real.exp_nat_mul, mul_div_cancel₀ _ hsize]
    _ = ∏ i ∈ range v.size, Real.exp (Real.log (v.coord i)) := Real.exp_sum _ _
    _ = ∏ i ∈ range v.size, v.coord i :=
        prod_congr rfl fun i hi => Real.exp_log (hpos i (mem_range.mp hi))

/-- Geometric means compare as products do. -/
theorem geometricMean_le_iff (h : 0 < v.size) (hsize : w.size = v.size)
    (hv : ∀ i < v.size, 0 < v.coord i) (hw : ∀ i < v.size, 0 < w.coord i) :
    v.geometricMean ≤ w.geometricMean ↔
      ∏ i ∈ range v.size, v.coord i ≤ ∏ i ∈ range v.size, w.coord i := by
  have hpow := geometricMean_pow (hsize ▸ h) (hsize ▸ hw)
  rw [hsize] at hpow
  have hv_nonneg := (geometricMean_pos h).le
  have hw_nonneg := (geometricMean_pos (hsize ▸ h)).le
  rw [← geometricMean_pow h hv, ← hpow]
  exact (pow_le_pow_iff_left₀ hv_nonneg hw_nonneg h.ne').symm

end Column

end Rebalancing
