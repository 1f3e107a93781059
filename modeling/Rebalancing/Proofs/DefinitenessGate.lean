-- SUMMARY: The check for eigenvalues below zero ends, refuses no semidefinite covariance, and lets through none that is much below zero anywhere.
import Mathlib
import Rebalancing.Proofs.Diagonal
import Rebalancing.Proofs.EigenMethod

/-!
# The check for eigenvalues below zero

Validation judges a covariance by the least number on the diagonal that the search for
its spectrum ends with. That number is the quadratic form at a unit column, so it is
not below zero where the form is not. And no value of the form is less than it by
more than the cells that the search leaves.
-/

open Finset Matrix

namespace Rebalancing

namespace Spectrum.Represents

variable {s : Spectrum ℝ} {m : SymMatrix ℝ} (h : s.Represents m)

include h

theorem basis_mul_transpose :
    s.basis.toMatrix m.order m.order * (s.basis.toMatrix m.order m.order)ᵀ = 1 :=
  mul_eq_one_comm.mp h.orthonormal

/-- The form of the matrix is the form of the turned matrix in the coordinates. -/
theorem form_mulVec_basis (y : Fin m.order → ℝ) :
    (s.basis.toMatrix m.order m.order *ᵥ y) ⬝ᵥ
        (m.toMatrix m.order *ᵥ (s.basis.toMatrix m.order m.order *ᵥ y)) =
      y ⬝ᵥ (s.turned.toMatrix m.order *ᵥ y) := by
  rw [h.turned_eq, mulVec_mulVec, dotProduct_comm, dotProduct_mulVec, ← mulVec_transpose,
    mulVec_mulVec, dotProduct_comm]

end Spectrum.Represents

/-! ## The range of a matrix -/

namespace SymMatrix

variable (m : SymMatrix ℝ)

/-- The quadratic form at a column, against the square of the length of the column. -/
noncomputable def rayleigh (v : Fin m.order → ℝ) : ℝ :=
  v ⬝ᵥ (m.toMatrix m.order *ᵥ v) / (v ⬝ᵥ v)

variable {m} {eps : ℝ}

/-- No value of the form is below the least eigenvalue found by more than the cells that
the search leaves. -/
theorem sub_le_rayleigh (heps : 0 < eps) {v : Fin m.order → ℝ} (hv : v ≠ 0) :
    (m.spectralRange eps).least - (m.order - 1) * eps * max 1 (m.spectralRange eps).maxAbs ≤
      m.rayleigh v := by
  have hrep := Spectrum.represents_ofMatrix m heps.ne'
  have hsettled := Spectrum.settled_ofMatrix m heps.ne'
  rw [← Spectrum.valueRange_ofMatrix]
  generalize Spectrum.ofMatrix m eps = s at hrep hsettled ⊢
  have hlt (k : Fin m.order) : (k : ℕ) < s.turned.order := k.isLt.trans_eq hrep.order_eq.symm
  -- The coordinates of `v` in the basis.
  obtain ⟨y, rfl⟩ : ∃ y, s.basis.toMatrix m.order m.order *ᵥ y = v :=
    ⟨(s.basis.toMatrix m.order m.order)ᵀ *ᵥ v, by
      rw [mulVec_mulVec, hrep.basis_mul_transpose, one_mulVec]⟩
  have hpos := dotProduct_self_pos hv
  rw [dotProduct_mulVec_self hrep.orthonormal] at hpos
  rw [rayleigh, hrep.form_mulVec_basis, dotProduct_mulVec_self hrep.orthonormal,
    le_div_iff₀ hpos, mul_assoc]
  refine le_dotProduct_mulVec (fun k => ?_) (fun p q hpq => ?_) y
  · exact (Spectrum.exists_least_eq (k.val.zero_le.trans_lt (hlt k))).2 k (hlt k)
  · rcases lt_or_gt_of_ne hpq with hpq | hqp
    · exact hsettled.abs_entry_le heps.le hpq (hlt q)
    · have hcell : s.turned.toMatrix m.order p q = s.turned.entry q p := s.turned.entry_comm p q
      rw [hcell]
      exact hsettled.abs_entry_le heps.le hqp (hlt p)

/-- The least eigenvalue found is a value of the form. -/
theorem exists_rayleigh_eq (hm : 0 < m.order) (heps : eps ≠ 0) :
    ∃ v ≠ 0, m.rayleigh v = (m.spectralRange eps).least := by
  have hrep := Spectrum.represents_ofMatrix m heps
  rw [← Spectrum.valueRange_ofMatrix]
  generalize Spectrum.ofMatrix m eps = s at hrep ⊢
  obtain ⟨⟨k, hk, hleast⟩, -⟩ := Spectrum.exists_least_eq (hrep.order_eq.symm ▸ hm)
  let e : Fin m.order → ℝ := Pi.single ⟨k, hrep.order_eq ▸ hk⟩ 1
  have hunit : e ⬝ᵥ e = 1 := by simp [e]
  have hform : e ⬝ᵥ (s.turned.toMatrix m.order *ᵥ e) = s.turned.entry k k := by
    simp [e, toMatrix]
  refine ⟨s.basis.toMatrix m.order m.order *ᵥ e, fun hzero => ?_, ?_⟩
  · have hlength := dotProduct_mulVec_self hrep.orthonormal e
    rw [hzero, zero_dotProduct, hunit] at hlength
    exact zero_ne_one hlength
  · rw [rayleigh, hrep.form_mulVec_basis, dotProduct_mulVec_self hrep.orthonormal, hunit, hform,
      div_one, hleast]

/-- A bound from below on the form is one on the least eigenvalue found. -/
theorem le_least (hm : 0 < m.order) (heps : eps ≠ 0) {a : ℝ}
    (h : ∀ v : Fin m.order → ℝ, a * (v ⬝ᵥ v) ≤ v ⬝ᵥ (m.toMatrix m.order *ᵥ v)) :
    a ≤ (m.spectralRange eps).least := by
  obtain ⟨v, hv, hleast⟩ := exists_rayleigh_eq hm heps
  rw [← hleast, rayleigh, le_div_iff₀ (dotProduct_self_pos hv)]
  exact h v

end SymMatrix

/-! ## The check -/

/-- Every finite sequence is a column. -/
theorem Column.exists_vec_eq {n : ℕ} (v : Fin n → ℝ) :
    ∃ z : Column ℝ, z.size = n ∧ z.vec n = v := by
  refine ⟨.ofFn v, Array.size_ofFn, funext fun i => ?_⟩
  simp [Column.vec, Column.coord]

namespace Inputs

section Gate

variable {inp : Inputs ℝ} {par : Settings ℝ}

/-- Semidefinite covariances are not refused for an eigenvalue below zero. -/
theorem validate_ne_indefinite (heps : par.solver.epsZero ≠ 0) (htol : 0 ≤ par.psdTol)
    (hpsd : ∀ z : Column ℝ, z.size = inp.assets → 0 ≤ inp.covariance.quadForm z) (e : ℝ) :
    inp.validate par ≠ .error (.indefinite e) := by
  intro h
  rw [← validateBy_ofMatrix] at h
  obtain ⟨hsized, hneg⟩ := least_lt_of_validateBy htol h
  have horder := Covariance.order_symmetrize hsized.size_covariance
  rw [Spectrum.valueRange_ofMatrix] at hneg
  refine hneg.not_ge (SymMatrix.le_least (horder ▸ hsized.assets_pos) heps fun v => ?_)
  obtain ⟨z, hz, rfl⟩ := Column.exists_vec_eq v
  rw [zero_mul, horder, ← Covariance.quadForm_symmetrize hsized.size_covariance (hz.trans horder)]
  exact hpsd z (hz.trans horder)

/-- A covariance that passes is not far below zero anywhere. -/
theorem le_quadForm_of_validate (heps : 0 < par.solver.epsZero) {n : ℕ}
    (h : inp.validate par = .ok n) {z : Column ℝ} (hz : z.size = n) :
    -(par.psdTol + (n - 1) * par.solver.epsZero) *
        max 1 (inp.covariance.symmetrize.spectralRange par.solver.epsZero).maxAbs *
        (z.vec n ⬝ᵥ z.vec n) ≤
      inp.covariance.quadForm z := by
  rw [← validateBy_ofMatrix] at h
  obtain ⟨hsized, rfl, -, hleast⟩ := neg_le_least_of_validateBy h
  have horder := Covariance.order_symmetrize hsized.size_covariance
  rw [Spectrum.valueRange_ofMatrix] at hleast
  rw [Covariance.quadForm_symmetrize hsized.size_covariance hz, ← horder]
  generalize inp.covariance.symmetrize = m at hleast ⊢
  rcases eq_or_ne (z.vec m.order) 0 with hzero | hne
  · simp [hzero]
  · have hpos := dotProduct_self_pos hne
    have hrayleigh := SymMatrix.sub_le_rayleigh heps hne
    rw [SymMatrix.rayleigh, le_div_iff₀ hpos] at hrayleigh
    refine le_trans (mul_le_mul_of_nonneg_right ?_ hpos.le) hrayleigh
    linarith

end Gate

end Inputs

/-- The search for the spectrum of a covariance ends by itself. The least eigenvalue that
it finds is not below every value of the quadratic form, and above none by more than
the cells that are left add up to. So validation refuses no semidefinite covariance
for an eigenvalue below zero, and lets none through that is below zero by more than
its tolerance and those cells. -/
theorem definiteness_gate {eps : ℝ} (heps : 0 < eps) :
    (∀ m : SymMatrix ℝ, 0 < m.order →
      Spectrum.SettlesTo (eps * eps) (.start m) (.ofMatrix m eps) ∧
      (∀ v : Fin m.order → ℝ, v ≠ 0 →
        (m.spectralRange eps).least - (m.order - 1) * eps * max 1 (m.spectralRange eps).maxAbs ≤
          m.rayleigh v) ∧
      ∃ v : Fin m.order → ℝ, v ≠ 0 ∧ m.rayleigh v ≤ (m.spectralRange eps).least) ∧
    ∀ (inp : Inputs ℝ) (par : Settings ℝ), par.solver.epsZero = eps → 0 ≤ par.psdTol →
      ((∀ z : Column ℝ, z.size = inp.assets → 0 ≤ inp.covariance.quadForm z) →
        ∀ e, inp.validate par ≠ .error (.indefinite e)) ∧
      ∀ n, inp.validate par = .ok n → ∀ z : Column ℝ, z.size = n →
        -(par.psdTol + (n - 1) * eps) *
            max 1 (inp.covariance.symmetrize.spectralRange eps).maxAbs *
            (z.vec n ⬝ᵥ z.vec n) ≤
          inp.covariance.quadForm z := by
  refine ⟨fun m hm => ⟨Spectrum.settlesTo_ofMatrix m heps.ne', fun v hv => ?_, ?_⟩, ?_⟩
  · exact SymMatrix.sub_le_rayleigh heps hv
  · obtain ⟨v, hv, hleast⟩ := SymMatrix.exists_rayleigh_eq hm heps.ne'
    exact ⟨v, hv, hleast.le⟩
  · rintro inp par rfl htol
    exact ⟨fun hpsd e => Inputs.validate_ne_indefinite heps.ne' htol hpsd e,
      fun n hvalid z hz => Inputs.le_quadForm_of_validate heps hvalid hz⟩

/-! ## Two assets that nearly are one -/

section Twins

theorem epsZero_default : (Settings.default (F := ℝ)).solver.epsZero = 1 / 10 ^ 12 := by
  norm_num [Settings.default, Scalar.tenToMinus]

/-- The covariance of two assets that move together up to noise, by which their own
variances come out too small. -/
noncomputable def twinMatrix : SymMatrix ℝ :=
  .ofFn 2 fun i j => if i = j then 1 - 1 / 10 ^ 10 else 1

/-- Two assets with that covariance. -/
noncomputable def twins : Inputs ℝ := { Inputs.twoAssets with covariance := .packed twinMatrix }

theorem order_twinMatrix : twinMatrix.order = 2 := SymMatrix.order_ofFn _ _

theorem entry_twinMatrix (i j : Fin 2) :
    twinMatrix.entry i j = if i = j then 1 - 1 / 10 ^ 10 else 1 := by
  wlog hij : i ≤ j generalizing i j
  · rw [SymMatrix.entry_comm, this j i (le_of_not_ge hij), if_congr eq_comm rfl rfl]
  · refine (SymMatrix.entry_ofFn _ hij j.isLt).trans ?_
    simp only [Fin.val_inj]

/-- The quadratic form is below zero where the two assets are held against each other. -/
theorem form_twinMatrix (v : Fin 2 → ℝ) :
    v ⬝ᵥ (twinMatrix.toMatrix 2 *ᵥ v) = (v 0 + v 1) ^ 2 - 1 / 10 ^ 10 * (v ⬝ᵥ v) := by
  simp only [dotProduct, mulVec, SymMatrix.toMatrix, of_apply, entry_twinMatrix, Fin.sum_univ_two]
  norm_num
  ring

theorem neg_le_least_twinMatrix :
    -(1 / 10 ^ 10) ≤ (twinMatrix.spectralRange Settings.default.solver.epsZero).least := by
  refine SymMatrix.le_least (order_twinMatrix ▸ two_pos) (by norm_num [epsZero_default]) ?_
  rw [order_twinMatrix]
  intro v
  rw [form_twinMatrix]
  linarith [sq_nonneg (v 0 + v 1)]

theorem plainFault?_twins : Checked.plainFault? twins = none := by
  have hsize : twins.covariance.size = (2, 2) := by
    rw [twins, Covariance.size, order_twinMatrix]
  have hassets : twins.assets = 2 := rfl
  rw [Checked.plainFault?, hsize, hassets]
  simp [twins, Inputs.twoAssets, Inputs.sizeFault?, Inputs.finiteFault?, Inputs.growthFault?]

theorem definiteFault?_twins :
    Inputs.definiteFault? Settings.default.psdTol Settings.default.solver.epsZero
      twins.covariance = none := by
  have hsymmetric : twins.covariance.symmetrize = twinMatrix := rfl
  have hscale := le_max_left 1 (twinMatrix.spectralRange Settings.default.solver.epsZero).maxAbs
  rw [Inputs.definiteFault?, psdTol_default, hsymmetric, Scalar.max_real]
  -- What is tolerated is ten times the size of the eigenvalue.
  refine if_neg (not_lt.mpr (le_trans ?_ neg_le_least_twinMatrix))
  linarith

theorem validate_twins : twins.validate Settings.default = .ok 2 := by
  refine Inputs.validate_eq_ok_iff.mpr ⟨rfl, ?_⟩
  rw [Checked.fault?_eq_orElse, plainFault?_twins, definiteFault?_twins]
  rfl

/-- The twins pass, their covariance being below zero by less than what is tolerated; and
two assets that do not move together are not refused for an eigenvalue below zero. -/
theorem definiteness_gate_twins :
    Spectrum.SettlesTo (1 / 10 ^ 12 * (1 / 10 ^ 12)) (.start twinMatrix)
      (.ofMatrix twinMatrix (1 / 10 ^ 12)) ∧
    (∀ e, Inputs.twoAssets.validate .default ≠ .error (.indefinite e)) ∧
    twins.validate .default = .ok 2 ∧
    ∀ z : Column ℝ, z.size = 2 →
      -(1 / 10 ^ 9 + 1 / 10 ^ 12) * max 1 (twinMatrix.spectralRange (1 / 10 ^ 12)).maxAbs *
          (z.vec 2 ⬝ᵥ z.vec 2) ≤
        twins.covariance.quadForm z := by
  obtain ⟨hrange, hgate⟩ := @definiteness_gate (1 / 10 ^ 12) (by norm_num)
  refine ⟨(hrange twinMatrix (order_twinMatrix ▸ two_pos)).1, ?_, validate_twins, fun z hz => ?_⟩
  · refine (hgate Inputs.twoAssets .default epsZero_default psdTol_default_nonneg).1 fun z hz => ?_
    rw [Inputs.quadForm_twoAssets hz]
    positivity
  · have hbound := (hgate twins .default epsZero_default psdTol_default_nonneg).2 2 validate_twins z hz
    norm_num [psdTol_default] at hbound ⊢
    exact hbound

end Twins

end Rebalancing
