-- SUMMARY: The check and the root of a covariance by any method that finds spectra, and what inputs show that pass the check or fail it.
import Mathlib
import Rebalancing.Proofs.Checked.Inputs
import Rebalancing.Proofs.Matrix.SpectralRange

/-!
# Methods that find spectra

The check for eigenvalues below zero and the root of a covariance take nothing from the
search for a spectrum but the spectrum. Here the search is a parameter of both, so
what is said of them holds for one that ends elsewhere, or at the eigenvalues
themselves.
-/

namespace Rebalancing

/-- A way to find spectra of symmetric matrices, told up to which size a number counts
as zero. -/
abbrev EigenMethod (F : Type) := SymMatrix F → F → Spectrum F

section Methods

variable {F : Type} [Scalar F] (eig : EigenMethod F)

/-- The symmetric root through the spectrum that the method finds. -/
def EigenMethod.root : RootMethod F := fun m eps =>
  (eig m eps).rebuild fun e => if 0 < e then some (Scalar.sqrt e) else none

theorem EigenMethod.root_ofMatrix :
    EigenMethod.root (F := F) Spectrum.ofMatrix = SymMatrix.sqrt := rfl

namespace Inputs

/-- The fault of a covariance with an eigenvalue below zero among those that the method
finds. -/
def definiteFaultBy? (tol eps : F) (covariance : Covariance F) : Option (InputError F) :=
  let range := (eig covariance.symmetrize eps).valueRange
  if range.least < -tol * Scalar.max 1 range.maxAbs then some (.indefinite range.least) else none

/-- The first fault of the inputs, their covariance judged by the spectrum that the
method finds. -/
def faultBy? (inp : Inputs F) (par : Settings F) : Option (InputError F) :=
  Checked.plainFault? inp
  <|> symmetryFault? par.symTol inp.assets inp.covariance
  <|> definiteFaultBy? eig par.psdTol par.solver.epsZero inp.covariance

/-- The number of assets of inputs without a fault, or their first fault. -/
def validateBy (inp : Inputs F) (par : Settings F) : Except (InputError F) ℕ :=
  match inp.faultBy? eig par with
  | some e => .error e
  | none => .ok inp.assets

/-- Validation is validation by the search through sweeps. -/
theorem validateBy_ofMatrix (inp : Inputs F) (par : Settings F) :
    inp.validateBy Spectrum.ofMatrix par = inp.validate par := by
  rw [validate, Checked.fault?_eq_orElse]
  rfl

section Outcomes

variable {eig} {inp : Inputs F} {par : Settings F}

theorem validateBy_eq_ok_iff {n : ℕ} :
    inp.validateBy eig par = .ok n ↔ n = inp.assets ∧ inp.faultBy? eig par = none := by
  unfold validateBy
  cases inp.faultBy? eig par with
  | none => simp [eq_comm]
  | some e => simp

theorem validateBy_eq_error_iff {e : InputError F} :
    inp.validateBy eig par = .error e ↔ inp.faultBy? eig par = some e := by
  unfold validateBy
  cases inp.faultBy? eig par with
  | none => simp
  | some e' => simp

theorem sized_of_plainFault? (h : Checked.plainFault? inp = none) : inp.Sized := by
  simp only [Checked.plainFault?, Option.orElse_eq_none, sizeFault?_eq_none_iff, Prod.mk.injEq,
    and_true] at h
  obtain ⟨hempty, hcovariance, hallocation, hgrowth, -⟩ := h
  have hne : inp.assets ≠ 0 := by simpa using hempty
  exact ⟨Nat.pos_of_ne_zero hne, hcovariance.symm, hallocation.symm, hgrowth.symm⟩

theorem not_lt_zero_of_plainFault? (h : Checked.plainFault? inp = none) :
    ¬ inp.riskAversion < 0 := by
  simp only [Checked.plainFault?, Option.orElse_eq_none] at h
  -- Ten checks of sizes and of finite numbers come before the sign.
  obtain ⟨-, -, -, -, -, -, -, -, -, -, hsign, -⟩ := h
  simpa using hsign

theorem plainFault?_ne_indefinite (e : F) :
    Checked.plainFault? inp ≠ some (.indefinite e) := by
  simp [Checked.plainFault?, sizeFault?, finiteFault?, growthFault?]

theorem symmetryFault?_ne_indefinite {tol : F} {n : ℕ} {s : Covariance F} (e : F) :
    symmetryFault? tol n s ≠ some (.indefinite e) := by
  intro h
  cases s with
  | packed m => cases h
  | full m =>
    obtain ⟨c, -, hc⟩ := List.exists_of_findSome?_eq_some h
    obtain ⟨r, -, hr⟩ := Option.map_eq_some_iff.mp hc
    cases hr

/-- The fault of an eigenvalue below zero shows only in inputs without a plain fault. -/
theorem definiteFaultBy?_of_validateBy {e : F}
    (h : inp.validateBy eig par = .error (.indefinite e)) :
    Checked.plainFault? inp = none ∧
      definiteFaultBy? eig par.psdTol par.solver.epsZero inp.covariance =
        some (.indefinite e) := by
  have hfault := validateBy_eq_error_iff.mp h
  rw [faultBy?, Option.orElse_eq_some] at hfault
  rcases hfault with hplain | ⟨hplain, hfault⟩
  · exact absurd hplain (plainFault?_ne_indefinite e)
  · refine ⟨hplain, ?_⟩
    rw [Option.orElse_eq_some] at hfault
    rcases hfault with hsymmetry | ⟨-, hdefinite⟩
    · exact absurd hsymmetry (symmetryFault?_ne_indefinite e)
    · exact hdefinite

end Outcomes

end Inputs

end Methods

/-! ## Over the reals -/

namespace Inputs

section Reals

variable {eig : EigenMethod ℝ} {inp : Inputs ℝ} {par : Settings ℝ}

/-- What inputs show that pass: all parts are about the same assets, the risk aversion is
not below zero, and no eigenvalue found is far below zero. -/
theorem neg_le_least_of_validateBy {n : ℕ} (h : inp.validateBy eig par = .ok n) :
    inp.Sized ∧ n = inp.assets ∧ 0 ≤ inp.riskAversion ∧
      -(par.psdTol * max 1 (eig inp.covariance.symmetrize par.solver.epsZero).valueRange.maxAbs) ≤
        (eig inp.covariance.symmetrize par.solver.epsZero).valueRange.least := by
  obtain ⟨hn, hfault⟩ := validateBy_eq_ok_iff.mp h
  simp only [faultBy?, Option.orElse_eq_none] at hfault
  obtain ⟨hplain, -, hdefinite⟩ := hfault
  refine ⟨sized_of_plainFault? hplain, hn, not_lt.mp (not_lt_zero_of_plainFault? hplain), ?_⟩
  rw [definiteFaultBy?, ite_eq_right_iff] at hdefinite
  simpa using hdefinite

/-- Inputs that fail for an eigenvalue below zero are about the same assets in all
parts, and an eigenvalue found is below zero. -/
theorem least_lt_of_validateBy (htol : 0 ≤ par.psdTol) {e : ℝ}
    (h : inp.validateBy eig par = .error (.indefinite e)) :
    inp.Sized ∧ (eig inp.covariance.symmetrize par.solver.epsZero).valueRange.least < 0 := by
  obtain ⟨hplain, hdefinite⟩ := definiteFaultBy?_of_validateBy h
  have hlt := (Option.ite_none_right_eq_some.mp hdefinite).1
  refine ⟨sized_of_plainFault? hplain, hlt.trans_le ?_⟩
  rw [Scalar.max_real, neg_mul]
  exact neg_nonpos.mpr (mul_nonneg htol (le_max_of_le_left zero_le_one))

end Reals

end Inputs

end Rebalancing
