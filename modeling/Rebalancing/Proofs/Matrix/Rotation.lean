-- SUMMARY: A rotation of the search for a spectrum is a change of basis by a plane rotation, and takes the square of the cell that it clears from the sum above the diagonal.
import Mathlib
import Rebalancing.Matrix.Spectrum
import Rebalancing.Proofs.Matrix.QuadraticForm

/-!
# Plane rotations

Over the reals the angle of a rotation is such that the turned matrix is `Jᵀ X J` for
a rotation `J` of one plane, and the cell that the rotation is for becomes zero. A
change of basis keeps the sum of all squares. The two numbers on the diagonal gain
the square of the cell twice, so the squares above the diagonal lose it.
-/

open Finset Matrix

namespace Rebalancing

/-! ## The angle -/

/-- The tangent of the angle at which two rows with the numbers `a` and `b` on the
diagonal are turned, to clear the cell `d` where they cross. -/
def tangent {F : Type} [Scalar F] (a b d : F) : F :=
  let zeta := (b - a) / (Scalar.two * d)
  if 0 < zeta then 1 / (zeta + Scalar.sqrt (1 + zeta * zeta))
  else -1 / (-zeta + Scalar.sqrt (1 + zeta * zeta))

/-- The cosine of the angle with the tangent `t`. -/
def cosine {F : Type} [Scalar F] (t : F) : F := 1 / Scalar.sqrt (1 + t * t)

theorem tangent_root {a b d : ℝ} (hd : d ≠ 0) :
    d * tangent a b d ^ 2 + (b - a) * tangent a b d = d := by
  have hba : b - a = 2 * d * ((b - a) / (2 * d)) := by
    field_simp
  rw [tangent, Scalar.two_real]
  generalize (b - a) / (2 * d) = zeta at hba
  have hpos : 0 < 1 + zeta * zeta := add_pos_of_pos_of_nonneg one_pos (mul_self_nonneg zeta)
  have hroot : 0 < √(1 + zeta * zeta) := Real.sqrt_pos.mpr hpos
  have hsq : √(1 + zeta * zeta) ^ 2 = 1 + zeta * zeta := Real.sq_sqrt hpos.le
  -- The fractions are the two roots of `t² + 2 ζ t = 1`, written without a difference.
  simp only [hba, Scalar.sqrt_real]
  split
  · have hsmall : 1 / (zeta + √(1 + zeta * zeta)) = √(1 + zeta * zeta) - zeta := by
      rw [div_eq_iff (by positivity)]
      linear_combination -hsq
    rw [hsmall]
    linear_combination d * hsq
  · have hneg : 0 ≤ -zeta := neg_nonneg.mpr (not_lt.mp ‹_›)
    have hsmall : -1 / (-zeta + √(1 + zeta * zeta)) = -(√(1 + zeta * zeta) + zeta) := by
      rw [div_eq_iff (by positivity)]
      linear_combination hsq
    rw [hsmall]
    linear_combination d * hsq

theorem cosine_sq (t : ℝ) : cosine t ^ 2 * (1 + t ^ 2) = 1 := by
  have hpos : 0 < 1 + t * t := add_pos_of_pos_of_nonneg one_pos (mul_self_nonneg t)
  rw [cosine, Scalar.sqrt_real, div_pow, Real.sq_sqrt hpos.le, one_pow, sq,
    one_div_mul_cancel hpos.ne']

/-! ## Rotations of one plane -/

section Plane

variable {m n : Type} [DecidableEq n] (i j : n) (c s : ℝ)

/-- Turn columns `i` and `j` into each other. -/
def turnCols (A : Matrix m n ℝ) : Matrix m n ℝ :=
  .of fun p q =>
    if q = i then c * A p i - s * A p j
    else if q = j then s * A p i + c * A p j
    else A p q

/-- The rotation in the plane of `i` and `j` with the cosine `c` and the sine `s`. -/
def plane : Matrix n n ℝ := turnCols i j c s 1

variable {i j c s} [Fintype n]

theorem mul_plane (A : Matrix m n ℝ) : A * plane i j c s = turnCols i j c s A := by
  ext p q
  rw [mul_apply]
  simp only [plane, turnCols, of_apply]
  split
  · simp [mul_sub, sum_sub_distrib, one_apply, mul_comm]
  · split
    · simp [mul_add, sum_add_distrib, one_apply, mul_comm]
    · simp [one_apply]

theorem transpose_plane_mul (A : Matrix n m ℝ) :
    (plane i j c s)ᵀ * A = (turnCols i j c s Aᵀ)ᵀ := by
  rw [← mul_plane, transpose_mul, transpose_transpose]

theorem transpose_plane_mul_self (hij : i ≠ j) (h : c ^ 2 + s ^ 2 = 1) :
    (plane i j c s)ᵀ * plane i j c s = 1 := by
  rw [transpose_plane_mul]
  ext p q
  simp only [transpose_apply, turnCols, plane, of_apply, one_apply]
  grind

end Plane

/-! ## Rotations of a spectrum -/

/-- The first rows and columns. -/
noncomputable def RectMatrix.toMatrix (m : RectMatrix ℝ) (rows cols : ℕ) :
    Matrix (Fin rows) (Fin cols) ℝ :=
  .of fun r c => m.entry r c

namespace Spectrum

variable {n : ℕ} (s : Spectrum ℝ) (i j : Fin n)

/-- The tangent of the angle at which rows `i` and `j` are turned. -/
noncomputable def angle : ℝ :=
  tangent (s.turned.entry i i) (s.turned.entry j j) (s.turned.entry i j)

/-- The change of basis that a rotation makes. -/
noncomputable def turning : Matrix (Fin n) (Fin n) ℝ :=
  plane i j (cosine (s.angle i j)) (cosine (s.angle i j) * s.angle i j)

variable {s i j}

theorem transpose_turning_mul_self (hij : i < j) : (s.turning i j)ᵀ * s.turning i j = 1 := by
  refine transpose_plane_mul_self hij.ne ?_
  linear_combination cosine_sq (s.angle i j)

theorem toMatrix_basis_rotate (hrows : s.basis.rows = n) (hcols : s.basis.cols = n) :
    (s.rotate i j).basis.toMatrix n n = s.basis.toMatrix n n * s.turning i j := by
  rw [turning, mul_plane]
  ext k l
  refine (RectMatrix.entry_ofFn _ (hrows ▸ k.isLt) (hcols ▸ l.isLt)).trans ?_
  simp only [Fin.val_inj]
  rfl

/-- The turned matrix, cell by cell on and above its diagonal. -/
theorem entry_turned_rotate (hn : s.turned.order = n) {p q : Fin n} (hpq : p ≤ q) :
    (s.rotate i j).turned.entry p q =
      let X := s.turned.toMatrix n
      let t := s.angle i j
      let c := cosine t
      if p = i then
        if q = i then c * c * X i i + c * t * (c * t) * X j j - Scalar.two * c * (c * t) * X i j
        else if q = j then 0
        else c * X q i - c * t * X q j
      else if p = j then
        if q = j then c * t * (c * t) * X i i + c * c * X j j + Scalar.two * c * (c * t) * X i j
        else c * t * X q i + c * X q j
      else if q = i then c * X p i - c * t * X p j
      else if q = j then c * t * X p i + c * X p j
      else X p q := by
  have hcell : s.turned.upper p q = s.turned.entry p q := (if_pos hpq).symm
  refine (SymMatrix.entry_ofFn _ hpq (hn ▸ q.isLt)).trans ?_
  simp only [Fin.val_inj, hcell]
  rfl

/-- A rotation turns the matrix into the one of the same map in another basis. -/
theorem toMatrix_turned_rotate (hn : s.turned.order = n) (hij : i < j)
    (hd : s.turned.entry i j ≠ 0) :
    (s.rotate i j).turned.toMatrix n =
      (s.turning i j)ᵀ * (s.turned.toMatrix n * s.turning i j) := by
  have hsymm : (s.turned.toMatrix n)ᵀ = s.turned.toMatrix n := s.turned.transpose_toMatrix n
  have hconj : ((s.turning i j)ᵀ * (s.turned.toMatrix n * s.turning i j))ᵀ =
      (s.turning i j)ᵀ * (s.turned.toMatrix n * s.turning i j) := by
    rw [transpose_mul, transpose_mul, transpose_transpose, hsymm, Matrix.mul_assoc]
  refine SymMatrix.toMatrix_eq_of_upper hconj fun p q hpq => ?_
  refine (entry_turned_rotate hn hpq).trans ?_
  rw [turning, transpose_plane_mul, mul_plane]
  simp only [turnCols, transpose_apply, of_apply, Scalar.two_real]
  have hroot : s.turned.toMatrix n i j * s.angle i j ^ 2 +
      (s.turned.toMatrix n j j - s.turned.toMatrix n i i) * s.angle i j =
        s.turned.toMatrix n i j := tangent_root hd
  have hX : ∀ p q, s.turned.toMatrix n q p = s.turned.toMatrix n p q :=
    fun p q => congrFun (congrFun hsymm p) q
  generalize cosine (s.angle i j) = c
  generalize s.angle i j = t at hroot
  generalize s.turned.toMatrix n = X at hroot hX
  rcases eq_or_ne p i with rfl | hpi
  · rcases eq_or_ne q p with rfl | hqi
    · simp only [if_true, hX q j]
      ring
    · rcases eq_or_ne q j with rfl | hqj
      · simp only [if_true, if_neg hqi, hX p q]
        linear_combination c ^ 2 * hroot
      · simp only [if_true, if_neg hqi, if_neg hqj, hX p q, hX q j]
  · rcases eq_or_ne p j with rfl | hpj
    · have hqi : q ≠ i := (hij.trans_le hpq).ne'
      rcases eq_or_ne q p with rfl | hqj
      · simp only [if_true, if_neg hpi, hX i q]
        ring
      · simp only [if_true, if_neg hpi, if_neg hqi, if_neg hqj, hX i q, hX p q]
    · simp only [if_neg hpi, if_neg hpj]

end Spectrum

/-! ## Squares above the diagonal -/

/-- A symmetric square of numbers adds up to its diagonal and twice what is above it. -/
theorem sum_square_of_symm {f : ℕ → ℕ → ℝ} (hf : ∀ i j, f i j = f j i) (n : ℕ) :
    ∑ i ∈ range n, ∑ j ∈ range n, f i j =
      ∑ k ∈ range n, f k k + 2 * ∑ j ∈ range n, ∑ i ∈ range j, f i j := by
  induction n with
  | zero => simp
  | succ n ih =>
    have hlast : ∑ j ∈ range n, f n j = ∑ i ∈ range n, f i n := sum_congr rfl fun j _ => hf n j
    simp only [sum_range_succ, sum_add_distrib, ih, hlast]
    ring

/-- The sum of all squares does not depend on the basis. -/
theorem trace_mul_self_conj {n : ℕ} {J : Matrix (Fin n) (Fin n) ℝ} (hJ : Jᵀ * J = 1)
    (X : Matrix (Fin n) (Fin n) ℝ) :
    trace (Jᵀ * (X * J) * (Jᵀ * (X * J))) = trace (X * X) := by
  have hJ' : J * Jᵀ = 1 := mul_eq_one_comm.mp hJ
  calc trace (Jᵀ * (X * J) * (Jᵀ * (X * J)))
      = trace (Jᵀ * (X * (J * Jᵀ) * X * J)) := by simp only [Matrix.mul_assoc]
    _ = trace (Jᵀ * (X * X * J)) := by rw [hJ', Matrix.mul_one]
    _ = trace (X * X * (J * Jᵀ)) := by rw [trace_mul_comm, Matrix.mul_assoc]
    _ = trace (X * X) := by rw [hJ', Matrix.mul_one]

namespace SymMatrix

/-- The sum of the squares above the diagonal, by which the number of sweeps is
bounded. -/
noncomputable def above (m : SymMatrix ℝ) : ℝ :=
  sumTo m.order fun j => sumTo j fun i => m.upper i j * m.upper i j

theorem above_real (m : SymMatrix ℝ) :
    m.above = ∑ j ∈ range m.order, ∑ i ∈ range j, m.entry i j ^ 2 := by
  rw [above, sumTo_real]
  refine sum_congr rfl fun j _ => ?_
  rw [sumTo_real]
  refine sum_congr rfl fun i hi => ?_
  rw [entry, if_pos (mem_range.mp hi).le, sq]

theorem above_nonneg (m : SymMatrix ℝ) : 0 ≤ m.above := by
  rw [above_real]
  positivity

theorem trace_mul_self {m : SymMatrix ℝ} {n : ℕ} (hn : m.order = n) :
    trace (m.toMatrix n * m.toMatrix n) = ∑ k : Fin n, m.entry k k ^ 2 + 2 * m.above := by
  have hsquare : ∀ i j, m.entry i j * m.entry j i = m.entry i j ^ 2 := by
    intro i j
    rw [m.entry_comm j i, sq]
  have hcomm : ∀ i j, m.entry i j ^ 2 = m.entry j i ^ 2 := by
    intro i j
    rw [m.entry_comm i j]
  rw [above_real, hn, ← sum_range fun k => m.entry k k ^ 2, ← sum_square_of_symm hcomm, sum_range]
  refine sum_congr rfl fun i _ => ?_
  rw [diag_apply, mul_apply, sum_range]
  exact sum_congr rfl fun j _ => hsquare i j

end SymMatrix

namespace Spectrum

variable {n : ℕ} {s : Spectrum ℝ} {i j : Fin n}

/-- The diagonal after a rotation: what one of the two rows loses, the other gains. -/
theorem diagonal_rotate (hn : s.turned.order = n) (hij : i < j) (hd : s.turned.entry i j ≠ 0)
    (k : Fin n) :
    (s.rotate i j).turned.entry k k =
      if k = i then s.turned.entry i i - s.angle i j * s.turned.entry i j
      else if k = j then s.turned.entry j j + s.angle i j * s.turned.entry i j
      else s.turned.entry k k := by
  have hroot : s.turned.toMatrix n i j * s.angle i j ^ 2 +
      (s.turned.toMatrix n j j - s.turned.toMatrix n i i) * s.angle i j =
        s.turned.toMatrix n i j := tangent_root hd
  have hcos := cosine_sq (s.angle i j)
  rw [entry_turned_rotate hn le_rfl]
  simp only [Scalar.two_real]
  change _ = if k = i then s.turned.toMatrix n i i - s.angle i j * s.turned.toMatrix n i j
    else if k = j then s.turned.toMatrix n j j + s.angle i j * s.turned.toMatrix n i j
    else s.turned.toMatrix n k k
  generalize cosine (s.angle i j) = c at hcos
  generalize s.angle i j = t at hroot hcos
  generalize s.turned.toMatrix n = X at hroot
  rcases eq_or_ne k i with rfl | hki
  · simp only [if_true]
    linear_combination c ^ 2 * t * hroot + (X k k - t * X k j) * hcos
  · rcases eq_or_ne k j with rfl | hkj
    · simp only [if_true, if_neg hki]
      linear_combination -c ^ 2 * t * hroot + (X k k + t * X i k) * hcos
    · simp only [if_neg hki, if_neg hkj]

theorem sum_diagonal_rotate (hn : s.turned.order = n) (hij : i < j)
    (hd : s.turned.entry i j ≠ 0) :
    ∑ k : Fin n, (s.rotate i j).turned.entry k k ^ 2 =
      ∑ k : Fin n, s.turned.entry k k ^ 2 + 2 * s.turned.entry i j ^ 2 := by
  have hroot : s.turned.entry i j * s.angle i j ^ 2 +
      (s.turned.entry j j - s.turned.entry i i) * s.angle i j = s.turned.entry i j :=
    tangent_root hd
  have hterm : ∀ k : Fin n, (s.rotate i j).turned.entry k k ^ 2 = s.turned.entry k k ^ 2 +
      (if k = i then (s.turned.entry i i - s.angle i j * s.turned.entry i j) ^ 2 -
        s.turned.entry i i ^ 2 else 0) +
      (if k = j then (s.turned.entry j j + s.angle i j * s.turned.entry i j) ^ 2 -
        s.turned.entry j j ^ 2 else 0) := by
    intro k
    rw [diagonal_rotate hn hij hd]
    rcases eq_or_ne k i with rfl | hki
    · simp [hij.ne]
    · rcases eq_or_ne k j with rfl | hkj
      · simp [hki]
      · simp [hki, hkj]
  simp only [hterm, sum_add_distrib, sum_ite_eq', mem_univ, if_true]
  linear_combination 2 * s.turned.entry i j * hroot

/-- A rotation takes the square of the cell that it clears from the sum above the
diagonal. -/
theorem above_rotate (hn : s.turned.order = n) (hij : i < j) (hd : s.turned.entry i j ≠ 0) :
    (s.rotate i j).turned.above = s.turned.above - s.turned.entry i j ^ 2 := by
  have hturned : (s.rotate i j).turned.order = n := (SymMatrix.order_ofFn _ _).trans hn
  have hbefore := SymMatrix.trace_mul_self hn
  have hafter := SymMatrix.trace_mul_self hturned
  rw [toMatrix_turned_rotate hn hij hd, trace_mul_self_conj (transpose_turning_mul_self hij),
    sum_diagonal_rotate hn hij hd, hbefore] at hafter
  linarith

end Spectrum

end Rebalancing
