-- SUMMARY: What inputs that pass validation satisfy, and the program that they always have.
import Mathlib
import Rebalancing.Objective
import Rebalancing.Proofs.Matrix.QuadraticForm
import Rebalancing.TradeProgram
import Rebalancing.Validation

/-!
# Validated inputs

Inputs pass validation when no check finds a fault. Then all parts are about the
same assets, so there is a program, and over the reals the signs are those that
the program relies on.
-/

namespace Rebalancing

namespace Inputs

/-- There are assets, and all parts are about them. -/
structure Sized {F : Type} (inp : Inputs F) : Prop where
  assets_pos : 0 < inp.assets
  size_covariance : inp.covariance.size = (inp.assets, inp.assets)
  size_allocation : inp.allocation.size = inp.assets
  size_growth : inp.growth.size = inp.assets

section Checks

variable {F : Type} [Scalar F] {inp : Inputs F} {par : Settings F}

omit [Scalar F] in
theorem sizeFault?_eq_none_iff {datum : Datum} {expected actual : Nat × Nat} :
    sizeFault? (F := F) datum expected actual = none ↔ expected = actual := by
  simp [sizeFault?]

theorem growthFault?_eq_none_iff {growth : Column F} :
    growthFault? growth = none ↔ ∀ e ∈ growth, ¬ e ≤ 0 := by
  simp [growthFault?]

theorem finiteFault?_eq_none_iff {datum : Datum} {values : Column F} :
    finiteFault? datum values = none ↔ ∀ e ∈ values, Scalar.isFinite e = true := by
  rw [← Array.all_eq_true_iff_forall_mem, finiteFault?]
  split <;> simp_all only [reduceCtorEq]

theorem validate_eq_ok_iff {n : ℕ} :
    inp.validate par = .ok n ↔ n = inp.assets ∧ inp.fault? par = none := by
  unfold validate
  cases inp.fault? par with
  | none => simp [eq_comm]
  | some e => simp

theorem validate_eq_error_iff {e : InputError F} :
    inp.validate par = .error e ↔ inp.fault? par = some e := by
  unfold validate
  cases inp.fault? par with
  | none => simp
  | some e' => simp

theorem sized_of_fault?_eq_none (h : inp.fault? par = none) : inp.Sized := by
  simp only [fault?, Option.orElse_eq_none, sizeFault?_eq_none_iff, Prod.mk.injEq, and_true] at h
  obtain ⟨hempty, hcovariance, hallocation, hgrowth, -⟩ := h
  have hne : inp.assets ≠ 0 := by simpa using hempty
  exact ⟨Nat.pos_of_ne_zero hne, hcovariance.symm, hallocation.symm, hgrowth.symm⟩

theorem not_lt_zero_of_fault?_eq_none (h : inp.fault? par = none) : ¬ inp.riskAversion < 0 := by
  simp only [fault?, Option.orElse_eq_none] at h
  -- Ten checks of sizes and of finite numbers come before the sign.
  obtain ⟨-, -, -, -, -, -, -, -, -, -, hsign, -⟩ := h
  simpa using hsign

theorem growth_not_le_zero_of_fault?_eq_none (h : inp.fault? par = none) :
    ∀ e ∈ inp.growth, ¬ e ≤ 0 := by
  simp only [fault?, Option.orElse_eq_none] at h
  obtain ⟨-, -, -, -, -, -, -, -, -, -, -, hgrowth, -⟩ := h
  exact growthFault?_eq_none_iff.mp hgrowth

theorem isFinite_of_fault?_eq_none (h : inp.fault? par = none) :
    Scalar.isFinite inp.coupling = true ∧ ∀ e ∈ inp.growth, Scalar.isFinite e = true := by
  simp only [fault?, Option.orElse_eq_none, finiteFault?_eq_none_iff] at h
  obtain ⟨-, -, -, -, -, -, -, hcoupling, -, hgrowth, -⟩ := h
  exact ⟨hcoupling _ (by simp), hgrowth⟩

/-- Validated inputs have one or more assets, and all parts are about them. -/
theorem sized_of_validate {n : ℕ} (h : inp.validate par = .ok n) : inp.Sized ∧ n = inp.assets := by
  obtain ⟨hn, hfault⟩ := validate_eq_ok_iff.mp h
  exact ⟨sized_of_fault?_eq_none hfault, hn⟩

end Checks

/-! ## The program -/

section Program

variable {F : Type} [Scalar F]

/-- The program of inputs whose parts are about the same assets. -/
def program (root : RootMethod F) (inp : Inputs F) (epsZero : F) : TradeProgram F :=
  .buildBy root inp.returns inp.covariance.symmetrize inp.riskAversion inp.coupling inp.allocation
    inp.growth epsZero

variable {inp : Inputs F} (root : RootMethod F) (epsZero : F)

theorem program?_eq_some (h : inp.Sized) :
    inp.program? root epsZero = some (inp.program root epsZero) := by
  have horder : inp.covariance.symmetrize.order = inp.returns.size :=
    Covariance.order_symmetrize h.size_covariance
  have hsquare := Covariance.symmetrize?_eq_some h.size_covariance
  have hpos : 0 < inp.returns.size := h.assets_pos
  have hallocation : inp.allocation.size = inp.returns.size := h.size_allocation
  have hgrowth : inp.growth.size = inp.returns.size := h.size_growth
  simp [program?, TradeProgram.buildBy?, hsquare, horder, hpos, hallocation, hgrowth, program]

theorem Sized.objective?_eq_some (h : inp.Sized) {z : Column F} (hz : z.size = inp.assets) :
    objective? inp.returns inp.covariance inp.riskAversion z =
      some (objective inp.returns inp.covariance inp.riskAversion z) := by
  rw [objective?, hz, if_pos ⟨rfl, h.size_covariance⟩]

theorem cols_program (h : inp.Sized) :
    (inp.program root epsZero).cols =
      2 * inp.assets + (2 ^ GrowthTree.depth inp.assets - 1) + 1 := by
  have hgrowth : (inp.program root epsZero).tree.assets = inp.assets := h.size_growth
  rw [TradeProgram.cols, TradeProgram.auxiliaries, GrowthTree.inner, GrowthTree.leaves, hgrowth]
  rfl

end Program

/-! ## Signs -/

section Signs

variable {inp : Inputs ℝ} {par : Settings ℝ} {n : ℕ}

theorem riskAversion_nonneg (h : inp.validate par = .ok n) : 0 ≤ inp.riskAversion :=
  not_lt.mp (not_lt_zero_of_fault?_eq_none (validate_eq_ok_iff.mp h).2)

theorem growth_pos (h : inp.validate par = .ok n) {i : ℕ} (hi : i < inp.growth.size) :
    0 < inp.growth.coord i := by
  have hgrowth := growth_not_le_zero_of_fault?_eq_none (validate_eq_ok_iff.mp h).2
  rw [Column.forall_mem_iff] at hgrowth
  exact not_le.mp (hgrowth i hi)

end Signs

end Inputs

/-! ## Default settings -/

theorem psdTol_default : (Settings.default (F := ℝ)).psdTol = 1 / 10 ^ 9 := by
  norm_num [Settings.default, Scalar.tenToMinus]

theorem psdTol_default_nonneg : 0 ≤ (Settings.default (F := ℝ)).psdTol := by
  norm_num [psdTol_default]

end Rebalancing
