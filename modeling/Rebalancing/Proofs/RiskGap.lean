-- SUMMARY: The risk that the program charges exceeds the variance of the objective by no more than what the check lets through below zero.
import Mathlib
import Rebalancing.Proofs.DefinitenessGate
import Rebalancing.Proofs.TradeProgram.Matrices

/-!
# Two measures of risk

The program charges for an allocation half the square of its product with the scaled
root of the covariance, the objective charges risk aversion times variance. The root
takes an eigenvalue below zero for zero, so the first charge is the greater one. How
much greater is bounded by the tolerance of the check, whichever method finds the
eigenvalues, as long as they are exact.
-/

open Finset Matrix

namespace Rebalancing

/-! ## Exact spectra -/

namespace Spectrum

/-- The numbers on the diagonal are the eigenvalues of `m`, and the basis is an
orthonormal one of eigenvectors. -/
structure IsExactFor (s : Spectrum ℝ) (m : SymMatrix ℝ) : Prop where
  order_eq : s.turned.order = m.order
  orthonormal :
    (s.basis.toMatrix m.order m.order)ᵀ * s.basis.toMatrix m.order m.order = 1
  mul_basis : m.toMatrix m.order * s.basis.toMatrix m.order m.order =
    s.basis.toMatrix m.order m.order * diagonal fun k : Fin m.order => s.turned.entry k k

/-- The coordinates of a column in the basis. -/
noncomputable def coordinates (s : Spectrum ℝ) {n : ℕ} (v : Fin n → ℝ) : Fin n → ℝ :=
  (s.basis.toMatrix n n)ᵀ *ᵥ v

theorem conj_diagonal_mulVec (s : Spectrum ℝ) {n : ℕ} (d v : Fin n → ℝ) :
    (s.basis.toMatrix n n * diagonal d * (s.basis.toMatrix n n)ᵀ) *ᵥ v =
      s.basis.toMatrix n n *ᵥ fun k => d k * s.coordinates v k := by
  rw [← mulVec_mulVec, ← mulVec_mulVec]
  exact congrArg _ (funext fun k => mulVec_diagonal d _ k)

/-- A matrix rebuilt with changed eigenvalues is diagonal in the basis. -/
theorem toMatrix_rebuild (s : Spectrum ℝ) (f : ℝ → Option ℝ) {n : ℕ} (hn : s.turned.order = n) :
    (s.rebuild f).toMatrix n =
      s.basis.toMatrix n n * diagonal (fun k : Fin n => (f (s.turned.entry k k)).getD 0) *
        (s.basis.toMatrix n n)ᵀ := by
  refine SymMatrix.toMatrix_eq_of_upper ?_ fun i j hij => ?_
  · rw [transpose_mul, transpose_mul, transpose_transpose, diagonal_transpose, Matrix.mul_assoc]
  · rw [entry_rebuild s f hij (hn ▸ j.isLt), hn, sum_range, mul_apply]
    refine sum_congr rfl fun k _ => ?_
    rw [mul_diagonal, transpose_apply]
    change _ = s.basis.entry i k * _ * s.basis.entry j k
    ring

namespace IsExactFor

section Coordinates

variable {s : Spectrum ℝ} {m : SymMatrix ℝ} (h : s.IsExactFor m)

include h

theorem basis_mul_transpose :
    s.basis.toMatrix m.order m.order * (s.basis.toMatrix m.order m.order)ᵀ = 1 :=
  mul_eq_one_comm.mp h.orthonormal

theorem toMatrix_eq :
    m.toMatrix m.order = s.basis.toMatrix m.order m.order *
      diagonal (fun k : Fin m.order => s.turned.entry k k) *
        (s.basis.toMatrix m.order m.order)ᵀ := by
  rw [← h.mul_basis, Matrix.mul_assoc, h.basis_mul_transpose, Matrix.mul_one]

/-- A column and its coordinates have one length. -/
theorem sum_coordinates_sq (v : Fin m.order → ℝ) : ∑ k, s.coordinates v k ^ 2 = v ⬝ᵥ v := by
  have hlength := @dotProduct_mulVec_self _ (s.basis.toMatrix m.order m.order)ᵀ
    h.basis_mul_transpose v
  rw [← hlength]
  exact sum_congr rfl fun k _ => sq _

/-- The quadratic form adds up the eigenvalues, each times the square of a coordinate. -/
theorem form_eq_sum (v : Fin m.order → ℝ) :
    v ⬝ᵥ (m.toMatrix m.order *ᵥ v) =
      ∑ k : Fin m.order, s.turned.entry k k * s.coordinates v k ^ 2 := by
  rw [h.toMatrix_eq, conj_diagonal_mulVec, dotProduct_mulVec, ← mulVec_transpose]
  refine sum_congr rfl fun k _ => ?_
  change s.coordinates v k * (_ * s.coordinates v k) = _
  ring

end Coordinates

/-! ## The part below zero -/

section Root

variable {eig : EigenMethod ℝ} {m : SymMatrix ℝ} {eps : ℝ} (h : (eig m eps).IsExactFor m)

include h

theorem order_root : (eig.root m eps).order = m.order :=
  (SymMatrix.order_ofFn _ _).trans h.order_eq

/-- The square of the root is the quadratic form without the eigenvalues below zero. -/
theorem root_form_eq_sum (v : Fin m.order → ℝ) :
    ((eig.root m eps).toMatrix m.order *ᵥ v) ⬝ᵥ ((eig.root m eps).toMatrix m.order *ᵥ v) =
      ∑ k : Fin m.order,
        max ((eig m eps).turned.entry k k) 0 * (eig m eps).coordinates v k ^ 2 := by
  have hroot : ∀ e : ℝ, (if 0 < e then some √e else none).getD 0 ^ 2 = max e 0 := by
    intro e
    split
    · exact (Real.sq_sqrt (le_of_lt ‹_›)).trans (max_eq_left (le_of_lt ‹_›)).symm
    · exact (zero_pow two_ne_zero).trans (max_eq_right (not_lt.mp ‹_›)).symm
  rw [EigenMethod.root, toMatrix_rebuild _ _ h.order_eq, conj_diagonal_mulVec,
    dotProduct_mulVec_self h.orthonormal]
  refine sum_congr rfl fun k _ => ?_
  rw [← hroot, ← mul_pow, sq]
  rfl

/-- The root gives every column a square between its quadratic form and that form with
the greatest size of an eigenvalue below zero added. -/
theorem root_form_bounds {c : ℝ} (hc : 0 ≤ c)
    (hleast : ∀ k : Fin m.order, -c ≤ (eig m eps).turned.entry k k) (v : Fin m.order → ℝ) :
    v ⬝ᵥ (m.toMatrix m.order *ᵥ v) ≤
        ((eig.root m eps).toMatrix m.order *ᵥ v) ⬝ᵥ ((eig.root m eps).toMatrix m.order *ᵥ v) ∧
      ((eig.root m eps).toMatrix m.order *ᵥ v) ⬝ᵥ ((eig.root m eps).toMatrix m.order *ᵥ v) ≤
        v ⬝ᵥ (m.toMatrix m.order *ᵥ v) + c * (v ⬝ᵥ v) := by
  rw [h.root_form_eq_sum, h.form_eq_sum, ← h.sum_coordinates_sq, mul_sum, ← sum_add_distrib]
  refine ⟨sum_le_sum fun k _ => ?_, sum_le_sum fun k _ => ?_⟩
  · exact mul_le_mul_of_nonneg_right (le_max_left _ _) (sq_nonneg _)
  · rw [← add_mul]
    refine mul_le_mul_of_nonneg_right (max_le ?_ ?_) (sq_nonneg _)
    · exact le_add_of_nonneg_right hc
    · exact neg_le_iff_add_nonneg.mp (hleast k)

end Root

end IsExactFor

end Spectrum

/-! ## Program and objective -/

/-- Risk that a program charges for an allocation: half the square of its product with
the scaled root. -/
noncomputable def TradeProgram.charge (p : TradeProgram ℝ) (z : Column ℝ) : ℝ :=
  Scalar.half * ∑ r ∈ range p.assets, p.riskRoot.rowDot r z 0 ^ 2

/-- The charge is risk aversion times the square of the root of the covariance. -/
theorem Inputs.charge_program {root : RootMethod ℝ} {inp : Inputs ℝ} {epsZero : ℝ}
    (hroot : (root inp.covariance.symmetrize epsZero).order = inp.assets)
    (hκ : 0 ≤ inp.riskAversion) (z : Column ℝ) :
    (inp.program root epsZero).charge z = inp.riskAversion *
      (((root inp.covariance.symmetrize epsZero).toMatrix inp.assets *ᵥ z.vec inp.assets) ⬝ᵥ
        ((root inp.covariance.symmetrize epsZero).toMatrix inp.assets *ᵥ z.vec inp.assets)) := by
  have hscaled := TradeProgram.toMatrix_riskRoot (p := inp.program root epsZero) rfl hroot
  have horder : (inp.program root epsZero).riskRoot.order = inp.assets :=
    (SymMatrix.order_ofFn _ _).trans hroot
  have hassets : (inp.program root epsZero).assets = inp.assets := rfl
  have hproduct : ∀ r : Fin inp.assets, (inp.program root epsZero).riskRoot.rowDot r z 0 =
      √(2 * inp.riskAversion) *
        ((root inp.covariance.symmetrize epsZero).toMatrix inp.assets *ᵥ z.vec inp.assets) r := by
    intro r
    have hfirst : (fun c : Fin inp.assets => z.coord (0 + c)) = z.vec inp.assets :=
      funext fun c => congrArg z.coord (Nat.zero_add c)
    rw [SymMatrix.rowDot_eq_mulVec horder, hfirst]
    exact congrFun ((congrArg (· *ᵥ z.vec inp.assets) hscaled).trans (smul_mulVec _ _ _)) r
  rw [TradeProgram.charge, hassets, sum_range, Scalar.half_real]
  simp only [hproduct, mul_pow, Real.sq_sqrt (mul_nonneg zero_le_two hκ), ← mul_sum]
  simp only [dotProduct, sq]
  ring

/-- The program charges for every allocation the risk that the objective charges, or
more by what the check lets through below zero. -/
theorem charge_bounds {eig : EigenMethod ℝ} {inp : Inputs ℝ} {par : Settings ℝ} {n : ℕ}
    (hvalid : inp.validateBy eig par = .ok n) (htol : 0 ≤ par.psdTol)
    (hexact : (eig inp.covariance.symmetrize par.solver.epsZero).IsExactFor
      inp.covariance.symmetrize)
    {z : Column ℝ} (hz : z.size = n) :
    ∃ p, inp.program? eig.root par.solver.epsZero = some p ∧
      0 ≤ p.charge z - inp.riskAversion * inp.covariance.quadForm z ∧
      p.charge z - inp.riskAversion * inp.covariance.quadForm z ≤
        inp.riskAversion * par.psdTol *
          max 1 (eig inp.covariance.symmetrize par.solver.epsZero).valueRange.maxAbs *
          (z.vec n ⬝ᵥ z.vec n) := by
  obtain ⟨hsized, rfl, hκ, hleast⟩ := Inputs.neg_le_least_of_validateBy hvalid
  refine ⟨_, Inputs.program?_eq_some _ _ hsized, ?_⟩
  have horder := Covariance.order_symmetrize hsized.size_covariance
  have hallowed : 0 ≤ par.psdTol *
      max 1 (eig inp.covariance.symmetrize par.solver.epsZero).valueRange.maxAbs :=
    mul_nonneg htol (le_max_of_le_left zero_le_one)
  have hpos : 0 < (eig inp.covariance.symmetrize par.solver.epsZero).turned.order :=
    hsized.assets_pos.trans_eq (hexact.order_eq.trans horder).symm
  obtain ⟨hlow, hhigh⟩ := hexact.root_form_bounds hallowed
    (fun k => hleast.trans
      ((Spectrum.exists_least_eq hpos).2 k (k.isLt.trans_eq hexact.order_eq.symm))) (z.vec _)
  rw [horder, ← Covariance.quadForm_symmetrize hsized.size_covariance hz] at hlow hhigh
  rw [Inputs.charge_program (hexact.order_root.trans horder) hκ]
  constructor
  · exact sub_nonneg.mpr (mul_le_mul_of_nonneg_left hlow hκ)
  · have hscaled := mul_le_mul_of_nonneg_left hhigh hκ
    linarith

/-! ## Two assets -/

namespace Spectrum

theorem Represents.isExactFor {s : Spectrum ℝ} {m : SymMatrix ℝ} (h : s.Represents m)
    (hs : s.turned.IsDiagonal) : s.IsExactFor m where
  order_eq := h.order_eq
  orthonormal := h.orthonormal
  mul_basis := by
    have hdiagonal : s.turned.toMatrix m.order =
        diagonal fun k : Fin m.order => s.turned.entry k k := h.order_eq ▸ hs.toMatrix_eq
    rw [← hdiagonal, h.turned_eq, ← Matrix.mul_assoc, h.basis_mul_transpose, Matrix.one_mul]

section OrderTwo

variable {tol : ℝ} (htol : 0 ≤ tol) {s s' : Spectrum ℝ} {k : ℕ}

include htol

theorem Rotations.eq_of_isDiagonal (hrun : Rotations tol k s s') (hs : s.turned.IsDiagonal) :
    s' = s := by
  cases hrun with
  | none => rfl
  | first hij hj hdue _ => exact absurd (hs _ _ hij hj) (entry_ne_zero_of_isDue htol hdue)

/-- In two rows there is one cell above the diagonal, so one rotation ends the search. -/
theorem Rotations.isDiagonal_of_order_two (hrun : Rotations tol (k + 1) s s')
    (hs : s.turned.order = 2) : s'.turned.IsDiagonal := by
  cases hrun with
  | @first _ _ _ i j hij hj hdue hrest =>
    have horder : (s.rotate i j).turned.order = 2 := (order_rotate s i j).trans hs
    have hdiagonal : (s.rotate i j).turned.IsDiagonal := by
      intro p q hpq hq
      obtain ⟨rfl, rfl⟩ : p = i ∧ q = j := by omega
      let p' : Fin s.turned.order := ⟨p, hij.trans hj⟩
      let q' : Fin s.turned.order := ⟨q, hj⟩
      have hle : p' ≤ q' := hij.le
      have hne : q' ≠ p' := Fin.ne_of_gt hij
      refine (entry_turned_rotate (i := p') (j := q') rfl hle).trans ?_
      simp [hne]
    rw [hrest.eq_of_isDiagonal htol hdiagonal]
    exact hdiagonal

end OrderTwo

/-- On a matrix of order two whose cell above the diagonal is due the search is exact. -/
theorem isExactFor_ofMatrix_of_order_two {m : SymMatrix ℝ} (hm : m.order = 2) {eps : ℝ}
    (heps : eps ≠ 0) (hdue : (start m).isDue (eps * eps) 0 1 = true) :
    (ofMatrix m eps).IsExactFor m := by
  refine (represents_ofMatrix m heps).isExactFor ?_
  obtain ⟨hsettled, k, hrun⟩ := (settlesTo_ofMatrix m heps).settled
  generalize ofMatrix m eps = s at hsettled hrun ⊢
  cases k with
  | zero =>
    cases hrun
    exact absurd hdue (Bool.eq_false_iff.mp (hsettled 0 1 one_pos (hm.symm ▸ one_lt_two)))
  | succ k => exact hrun.isDiagonal_of_order_two (mul_self_nonneg eps) hm

end Spectrum

theorem isExactFor_twinMatrix :
    (Spectrum.ofMatrix twinMatrix Settings.default.solver.epsZero).IsExactFor twinMatrix := by
  refine Spectrum.isExactFor_ofMatrix_of_order_two order_twinMatrix
    (by norm_num [epsZero_default]) ?_
  have hfirst : twinMatrix.entry 0 0 = 1 - 1 / 10 ^ 10 := entry_twinMatrix 0 0
  have hsecond : twinMatrix.entry 1 1 = 1 - 1 / 10 ^ 10 := entry_twinMatrix 1 1
  have hcell : twinMatrix.entry 0 1 = 1 := entry_twinMatrix 0 1
  rw [Spectrum.isDue_eq_true_iff, epsZero_default, Spectrum.start, hfirst, hsecond, hcell]
  norm_num

/-- Held against each other, the twins have a variance below zero, and the program charges
more for them than the objective. -/
theorem charge_bounds_twins :
    twins.covariance.quadForm #[1, -1] < 0 ∧
    ∃ p, twins.program? SymMatrix.sqrt Settings.default.solver.epsZero = some p ∧
      0 ≤ p.charge #[1, -1] - twins.riskAversion * twins.covariance.quadForm #[1, -1] ∧
      p.charge #[1, -1] - twins.riskAversion * twins.covariance.quadForm #[1, -1] ≤
        twins.riskAversion * Settings.default.psdTol *
          max 1 (twinMatrix.spectralRange Settings.default.solver.epsZero).maxAbs *
          (Column.vec #[1, -1] 2 ⬝ᵥ Column.vec #[1, -1] 2) := by
  have hvalid := (Inputs.validateBy_ofMatrix twins .default).trans validate_twins
  have hcharge :=
    charge_bounds hvalid psdTol_default_nonneg isExactFor_twinMatrix (z := #[1, -1]) rfl
  rw [EigenMethod.root_ofMatrix] at hcharge
  refine ⟨?_, hcharge⟩
  have hform : twins.covariance.quadForm #[1, -1] =
      Column.vec #[1, -1] 2 ⬝ᵥ (twinMatrix.toMatrix 2 *ᵥ Column.vec #[1, -1] 2) :=
    Covariance.quadForm_eq_dotProduct twins.covariance _ rfl
  rw [hform, form_twinMatrix]
  norm_num [Column.vec, Column.coord, dotProduct, Fin.sum_univ_two]

end Rebalancing
