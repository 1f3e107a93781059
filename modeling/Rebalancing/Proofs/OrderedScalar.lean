-- SUMMARY: Scalars whose comparisons and finite arithmetic can be relied on: the laws, for exact and for extended numbers.
import Mathlib
import Rebalancing.Proofs.ExactScalar

/-!
# Scalars in order

Whoever compares machine floats relies on a few laws. All values but the undefined one
are in order, finite values stay finite in absolute value, and a difference or a product
is undefined only where IEEE 754 says so. The laws leave open how a result is rounded and
when it exceeds what is finite.
-/

namespace Rebalancing

/-- All values of the scalars that are not undefined are in order, and arithmetic with
finite values is not undefined. -/
class OrderedScalar (F : Type) [Scalar F] : Prop where
  isNaN_of_isFinite {x : F} : Scalar.isFinite x = true → Scalar.isNaN x = false
  isFinite_zero : Scalar.isFinite (0 : F) = true
  isFinite_one : Scalar.isFinite (1 : F) = true
  zero_lt_one : (0 : F) < 1
  lt_trans {x y z : F} : x < y → y < z → x < z
  not_lt_iff {x y : F} : Scalar.isNaN x = false → Scalar.isNaN y = false → (¬ x < y ↔ y ≤ x)
  isFinite_abs {x : F} : Scalar.isFinite x = true → Scalar.isFinite (Scalar.abs x) = true
  isNaN_abs {x : F} : Scalar.isNaN x = false → Scalar.isNaN (Scalar.abs x) = false
  isNaN_sub {x y : F} :
    Scalar.isFinite x = true → Scalar.isFinite y = true → Scalar.isNaN (x - y) = false
  /-- Only a zero makes a product with a value that is not undefined undefined. -/
  isNaN_mul {x y : F} :
    Scalar.isNaN x = false → Scalar.isFinite y = true → 0 < y → Scalar.isNaN (x * y) = false

/-! ## Comparisons -/

namespace OrderedScalar

variable {F : Type} [Scalar F] [OrderedScalar F] {x y : F}

theorem isNaN_zero : Scalar.isNaN (0 : F) = false := isNaN_of_isFinite isFinite_zero

theorem not_le_iff (hx : Scalar.isNaN x = false) (hy : Scalar.isNaN y = false) :
    ¬ x ≤ y ↔ y < x := by
  rw [← not_lt_iff hy hx, not_not]

theorem nonneg_iff (hx : Scalar.isFinite x = true) : ¬ x < 0 ↔ 0 ≤ x :=
  not_lt_iff (isNaN_of_isFinite hx) isNaN_zero

theorem pos_iff (hx : Scalar.isFinite x = true) : ¬ x ≤ 0 ↔ 0 < x :=
  not_le_iff (isNaN_of_isFinite hx) isNaN_zero

/-- The largest of one and two finite absolute values is finite and above zero. -/
theorem max_one_abs (hx : Scalar.isFinite x = true) (hy : Scalar.isFinite y = true) :
    Scalar.isFinite (Scalar.max (Scalar.max 1 (Scalar.abs x)) (Scalar.abs y)) = true ∧
      0 < Scalar.max (Scalar.max 1 (Scalar.abs x)) (Scalar.abs y) := by
  have hstep : ∀ a b : F, Scalar.isFinite a = true ∧ 0 < a → Scalar.isFinite b = true →
      Scalar.isFinite (Scalar.max a b) = true ∧ 0 < Scalar.max a b := by
    intro a b ha hb
    rw [Scalar.max, isNaN_of_isFinite ha.1, if_neg Bool.false_ne_true]
    split
    next hlt => exact ⟨hb, lt_trans ha.2 hlt⟩
    next => exact ha
  exact hstep _ _ (hstep _ _ ⟨isFinite_one, zero_lt_one⟩ (isFinite_abs hx)) (isFinite_abs hy)

end OrderedScalar

/-! ## Exact numbers -/

instance : OrderedScalar ℝ where
  isNaN_of_isFinite _ := rfl
  isFinite_zero := rfl
  isFinite_one := rfl
  zero_lt_one := zero_lt_one
  lt_trans := lt_trans
  not_lt_iff _ _ := not_lt
  isFinite_abs _ := rfl
  isNaN_abs _ := rfl
  isNaN_sub _ _ := rfl
  isNaN_mul _ _ _ := rfl

end Rebalancing
