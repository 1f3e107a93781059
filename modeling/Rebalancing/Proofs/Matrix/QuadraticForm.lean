-- SUMMARY: Symmetric matrices and covariances over the reals as matrices, their quadratic forms, and exact symmetric roots.
import Mathlib
import Rebalancing.Covariance
import Rebalancing.Matrix.Spectrum
import Rebalancing.Proofs.ExactScalar

/-!
# Quadratic forms

Products with a stored matrix are the products of the matrix of its cells. So the
variance of an allocation is a quadratic form, a covariance has the same form as
its symmetric part, and a symmetric root turns the form into a sum of squares. A
definite form outgrows every linear one.
-/

open Finset Matrix

namespace Rebalancing

/-! ## Cells as matrices -/

/-- The first `n` entries. -/
noncomputable def Column.vec (x : Column ℝ) (n : ℕ) : Fin n → ℝ := fun i => x.coord i

/-- The first `n` rows and columns. -/
noncomputable def SymMatrix.toMatrix (m : SymMatrix ℝ) (n : ℕ) : Matrix (Fin n) (Fin n) ℝ :=
  .of fun i j => m.entry i j

/-- The first `n` rows and columns. -/
noncomputable def Covariance.toMatrix (s : Covariance ℝ) (n : ℕ) : Matrix (Fin n) (Fin n) ℝ :=
  .of fun i j => s.entry i j

namespace SymMatrix

theorem transpose_toMatrix (m : SymMatrix ℝ) (n : ℕ) : (m.toMatrix n)ᵀ = m.toMatrix n := by
  ext i j
  exact m.entry_comm j i

/-- The cells on and above the diagonal are enough to know a symmetric matrix. -/
theorem toMatrix_eq_of_upper {m : SymMatrix ℝ} {n : ℕ} {A : Matrix (Fin n) (Fin n) ℝ}
    (hA : Aᵀ = A) (h : ∀ p q : Fin n, p ≤ q → m.entry p q = A p q) : m.toMatrix n = A := by
  ext p q
  rcases le_total p q with hpq | hqp
  · exact h p q hpq
  · exact (m.entry_comm p q).trans ((h q p hqp).trans (congrFun (congrFun hA p) q))

/-- A symmetric matrix is known by its order and its cells. -/
theorem eq_of_toMatrix_eq {m m' : SymMatrix ℝ} {n : ℕ} (horder : m.order = n)
    (horder' : m'.order = n) (h : m.toMatrix n = m'.toMatrix n) : m = m' := by
  refine ext_upper (horder.trans horder'.symm) fun i j hij hj => ?_
  have hjn : j < n := horder ▸ hj
  have hcell := congrFun (congrFun h ⟨i, hij.trans_lt hjn⟩) ⟨j, hjn⟩
  change m.entry i j = m'.entry i j at hcell
  rwa [entry, entry, if_pos hij, if_pos hij] at hcell

theorem rowDot_eq_mulVec {m : SymMatrix ℝ} {n : ℕ} (h : m.order = n) (x : Column ℝ) (start : ℕ)
    (i : Fin n) :
    m.rowDot i x start = (m.toMatrix n *ᵥ fun c => x.coord (start + c)) i := by
  rw [rowDot_real, h, sum_range]
  rfl

theorem toMatrix_scale {m : SymMatrix ℝ} {n : ℕ} (h : m.order = n) (a : ℝ) :
    (m.scale a).toMatrix n = a • m.toMatrix n := by
  refine toMatrix_eq_of_upper ?_ fun i j hij => ?_
  · rw [transpose_smul, transpose_toMatrix]
  · have hcell : m.entry i j = m.upper i j := if_pos hij
    refine (entry_ofFn _ hij (h ▸ j.isLt)).trans ?_
    rw [← hcell]
    rfl

end SymMatrix

/-! ## Variance -/

/-- Sums added up one after the other are a sum of sums. -/
theorem fold_sumFrom_real (n k : ℕ) (f : ℕ → ℕ → ℝ) :
    n.fold (fun c _ acc => sumFrom acc k (f c)) 0 = ∑ c ∈ range n, ∑ r ∈ range k, f c r := by
  induction n with
  | zero => rfl
  | succ n ih => rw [Nat.fold_succ, ih, sumFrom_real, sum_range_succ]

namespace Covariance

theorem quadForm_real (s : Covariance ℝ) (z : Column ℝ) :
    s.quadForm z =
      ∑ c ∈ range z.size, ∑ r ∈ range z.size, z.coord r * s.entry r c * z.coord c :=
  fold_sumFrom_real _ _ _

theorem quadForm_eq_dotProduct (s : Covariance ℝ) (z : Column ℝ) {n : ℕ} (h : z.size = n) :
    s.quadForm z = z.vec n ⬝ᵥ (s.toMatrix n *ᵥ z.vec n) := by
  rw [quadForm_real, h, sum_comm, sum_range]
  apply sum_congr rfl
  intro r _
  rw [sum_range, mulVec, dotProduct, mul_sum]
  apply sum_congr rfl
  intro c _
  exact mul_assoc _ _ _

/-- The symmetric part of a square covariance is the mean of it and its
transpose. -/
theorem toMatrix_symmetrize {s : Covariance ℝ} {n : ℕ} (h : s.size = (n, n)) :
    s.symmetrize.toMatrix n = (1 / 2 : ℝ) • (s.toMatrix n + (s.toMatrix n)ᵀ) := by
  cases s with
  | packed m =>
    have hcell : ∀ i j, m.entry i j = 1 / 2 * (m.entry i j + m.entry j i) := by
      intro i j
      rw [m.entry_comm j i]
      ring
    ext i j
    exact hcell i j
  | full m =>
    have hrows : m.rows = n := congrArg Prod.fst h
    refine SymMatrix.toMatrix_eq_of_upper ?_ fun i j hij => ?_
    · rw [transpose_smul, transpose_add, transpose_transpose, add_comm]
    · refine (SymMatrix.entry_ofFn _ hij (hrows ▸ j.isLt)).trans ?_
      change (m.entry i j + m.entry j i) * Scalar.half = 1 / 2 * (m.entry i j + m.entry j i)
      rw [Scalar.half_real, mul_comm]

theorem order_symmetrize {F : Type} [Scalar F] {s : Covariance F} {n : ℕ}
    (h : s.size = (n, n)) : s.symmetrize.order = n := by
  have hfst : s.size.1 = n := congrArg Prod.fst h
  cases s with
  | packed m => exact hfst
  | full m => exact (SymMatrix.order_ofFn _ _).trans hfst

theorem symmetrize?_eq_some {F : Type} [Scalar F] {s : Covariance F} {n : ℕ}
    (h : s.size = (n, n)) : s.symmetrize? = some s.symmetrize := by
  rw [symmetrize?, h, if_pos rfl]

/-- A covariance and its symmetric part give every allocation the same variance. -/
theorem quadForm_symmetrize {s : Covariance ℝ} {z : Column ℝ} {n : ℕ} (h : s.size = (n, n))
    (hz : z.size = n) : s.quadForm z = z.vec n ⬝ᵥ (s.symmetrize.toMatrix n *ᵥ z.vec n) := by
  have htranspose :
      z.vec n ⬝ᵥ ((s.toMatrix n)ᵀ *ᵥ z.vec n) = z.vec n ⬝ᵥ (s.toMatrix n *ᵥ z.vec n) := by
    rw [mulVec_transpose, dotProduct_comm, ← dotProduct_mulVec]
  rw [toMatrix_symmetrize h, smul_mulVec, add_mulVec, dotProduct_smul, dotProduct_add, htranspose,
    quadForm_eq_dotProduct s z hz, smul_eq_mul]
  ring

end Covariance

/-! ## Roots -/

namespace SymMatrix

/-- The quadratic form of the matrix is not below zero anywhere. -/
def Semidefinite (m : SymMatrix ℝ) : Prop := Matrix.PosSemidef (m.toMatrix m.order)

/-- The quadratic form of the matrix is above zero away from zero. -/
def Definite (m : SymMatrix ℝ) : Prop := Matrix.PosDef (m.toMatrix m.order)

theorem Definite.semidefinite {m : SymMatrix ℝ} (h : m.Definite) : m.Semidefinite :=
  PosDef.posSemidef h

/-- The root is of the order of the matrix, and its square is the matrix. -/
structure IsRootOf (root m : SymMatrix ℝ) : Prop where
  order_eq : root.order = m.order
  mul_self : root.toMatrix m.order * root.toMatrix m.order = m.toMatrix m.order

/-- A root turns the quadratic form into a sum of squares. -/
theorem IsRootOf.dotProduct_mulVec {root m : SymMatrix ℝ} (h : root.IsRootOf m)
    (v : Fin m.order → ℝ) :
    (root.toMatrix m.order *ᵥ v) ⬝ᵥ (root.toMatrix m.order *ᵥ v) =
      v ⬝ᵥ (m.toMatrix m.order *ᵥ v) := by
  rw [Matrix.dotProduct_mulVec, ← mulVec_transpose, mulVec_mulVec, transpose_toMatrix, h.mul_self,
    dotProduct_comm]

/-- Only a matrix without an eigenvalue below zero has a root. -/
theorem IsRootOf.semidefinite {root m : SymMatrix ℝ} (h : root.IsRootOf m) : m.Semidefinite := by
  have hsquare := posSemidef_conjTranspose_mul_self (root.toMatrix m.order)
  rwa [conjTranspose_eq_transpose_of_trivial, transpose_toMatrix, h.mul_self] at hsquare

/-- A linear form less a multiple of a definite quadratic form is bounded. -/
theorem Definite.exists_le {m : SymMatrix ℝ} (h : m.Definite) {κ : ℝ} (hκ : 0 < κ)
    (v : Fin m.order → ℝ) :
    ∃ c, ∀ x, v ⬝ᵥ x - κ * (x ⬝ᵥ (m.toMatrix m.order *ᵥ x)) ≤ c := by
  let M := m.toMatrix m.order
  -- The point where the gradient vanishes.
  obtain ⟨w, hw⟩ : ∃ w, M *ᵥ w = (1 / (2 * κ)) • v := by
    refine ⟨M⁻¹ *ᵥ ((1 / (2 * κ)) • v), ?_⟩
    rw [mulVec_mulVec, mul_nonsing_inv _ ((isUnit_iff_isUnit_det _).mp h.isUnit), one_mulVec]
  refine ⟨κ * (w ⬝ᵥ (M *ᵥ w)), fun x => ?_⟩
  have hsymm : w ⬝ᵥ (M *ᵥ x) = x ⬝ᵥ (M *ᵥ w) := by
    rw [dotProduct_mulVec, ← mulVec_transpose, transpose_toMatrix, dotProduct_comm]
  have hlinear : v ⬝ᵥ x = 2 * κ * (x ⬝ᵥ (M *ᵥ w)) := by
    rw [hw, dotProduct_smul, smul_eq_mul, dotProduct_comm]
    field_simp
  have hsquare : 0 ≤ (x - w) ⬝ᵥ (M *ᵥ (x - w)) := h.posSemidef.dotProduct_mulVec_nonneg _
  have hexpand : (x - w) ⬝ᵥ (M *ᵥ (x - w)) =
      x ⬝ᵥ (M *ᵥ x) - 2 * (x ⬝ᵥ (M *ᵥ w)) + w ⬝ᵥ (M *ᵥ w) := by
    rw [mulVec_sub, sub_dotProduct, dotProduct_sub, dotProduct_sub, hsymm]
    ring
  rw [hlinear]
  have hscaled := mul_nonneg hκ.le (hexpand ▸ hsquare)
  linarith

end SymMatrix

/-- The method finds a root of the matrix, if there is one. -/
def RootMethod.ExactAt (root : RootMethod ℝ) (m : SymMatrix ℝ) (epsZero : ℝ) : Prop :=
  m.Semidefinite → (root m epsZero).IsRootOf m

end Rebalancing
