-- SUMMARY: Real numbers as scalars without rounding and without special values, and what sums, products and columns of them are.
import Mathlib
import Rebalancing.Matrix.Rect
import Rebalancing.Matrix.Sym

/-!
# Exact scalars

Over the reals every operation of `Scalar` is the exact one. There is no real
that is undefined and none that exceeds all others, so no real passes for `nan`
and every real is finite. The two constants stand for zero; they are reached
only through the mean of no numbers and the least of no numbers.
-/

open Finset

namespace Rebalancing

noncomputable instance : Scalar ℝ where
  sqrt := Real.sqrt
  log := Real.log
  exp := Real.exp
  abs x := |x|
  ofCount := Nat.cast
  ceilCount := Nat.ceil
  nan := 0
  infinity := 0
  isNaN _ := false
  isFinite _ := true
  decLT := inferInstance
  decLE := inferInstance

/-! ## Operations -/

namespace Scalar

@[simp] theorem sqrt_real (x : ℝ) : Scalar.sqrt x = √x := rfl

@[simp] theorem log_real (x : ℝ) : Scalar.log x = Real.log x := rfl

@[simp] theorem exp_real (x : ℝ) : Scalar.exp x = Real.exp x := rfl

@[simp] theorem abs_real (x : ℝ) : Scalar.abs x = |x| := rfl

@[simp] theorem ofCount_real (n : ℕ) : (ofCount n : ℝ) = n := rfl

@[simp] theorem isNaN_real (x : ℝ) : isNaN x = false := rfl

@[simp] theorem isFinite_real (x : ℝ) : isFinite x = true := rfl

@[simp] theorem two_real : (two : ℝ) = 2 := one_add_one_eq_two

@[simp] theorem half_real : (half : ℝ) = 1 / 2 := by
  rw [half, two_real]

@[simp] theorem max_real (a b : ℝ) : Scalar.max a b = Max.max a b := by
  rw [max_def_lt, Scalar.max, isNaN_real]
  rfl

@[simp] theorem min_real (a b : ℝ) : Scalar.min a b = Min.min a b := by
  rw [min_comm, min_def_lt, Scalar.min, isNaN_real]
  rfl

end Scalar

/-! ## Sums -/

theorem sumFrom_real (start : ℝ) (n : ℕ) (f : ℕ → ℝ) :
    sumFrom start n f = start + ∑ i ∈ range n, f i := by
  induction n with
  | zero => simp
  | succ n ih => rw [sumFrom_succ, ih, sum_range_succ, add_assoc]

theorem sumTo_real (n : ℕ) (f : ℕ → ℝ) : sumTo n f = ∑ i ∈ range n, f i := by
  rw [sumTo, sumFrom_real, zero_add]

theorem RectMatrix.rowDot_real (m : RectMatrix ℝ) (r : ℕ) (x : Column ℝ) (start : ℕ) :
    m.rowDot r x start = ∑ c ∈ range m.cols, m.entry r c * x.coord (start + c) :=
  sumTo_real _ _

theorem RectMatrix.colDot_real (m : RectMatrix ℝ) (c : ℕ) (x : Column ℝ) (start : ℕ) :
    m.colDot c x start = ∑ r ∈ range m.rows, m.entry r c * x.coord (start + r) :=
  sumTo_real _ _

/-- A row of a column, taken once. -/
theorem RectMatrix.rowDot_ofColumn (x : Column ℝ) (r : ℕ) :
    (RectMatrix.ofColumn x).rowDot r #[1] 0 = x.coord r := by
  rw [RectMatrix.rowDot_real]
  simp [RectMatrix.ofColumn, RectMatrix.entry, Column.coord]

/-- The product of a column with a part of another one. -/
theorem RectMatrix.colDot_ofColumn (x y : Column ℝ) (start : ℕ) :
    (RectMatrix.ofColumn x).colDot 0 y start =
      ∑ r ∈ range x.size, x.coord r * y.coord (start + r) := by
  simp only [RectMatrix.colDot_real, RectMatrix.entry_ofColumn]
  rfl

theorem SymMatrix.rowDot_real (m : SymMatrix ℝ) (r : ℕ) (x : Column ℝ) (start : ℕ) :
    m.rowDot r x start = ∑ c ∈ range m.order, m.entry r c * x.coord (start + c) :=
  sumTo_real _ _

end Rebalancing
