-- SUMMARY: Diagonal covariances: the spectrum needs no rotation, its root is exact, and inputs with one pass validation.
import Mathlib
import Rebalancing.Proofs.Matrix.Spectrum
import Rebalancing.Proofs.Validation

/-!
# Diagonal covariances

No cell above the diagonal of a diagonal matrix is due, so the first sweep ends the
search for its spectrum. Assets that do not move together have such a covariance;
on it the root taken through the spectrum is exact.
-/

open Finset Matrix

namespace Rebalancing

/-- Every cell above the diagonal is zero. -/
def SymMatrix.IsDiagonal (m : SymMatrix ℝ) : Prop :=
  ∀ i j, i < j → j < m.order → m.entry i j = 0

/-! ## Spectra -/

namespace Spectrum

variable {m : SymMatrix ℝ} (hm : m.IsDiagonal) (eps : ℝ)

include hm

theorem isDue_start {i j : ℕ} (hij : i < j) (hj : j < m.order) :
    (start m).isDue (eps * eps) i j = false := by
  have hcell : (start m).turned.entry i j = 0 := hm i j hij hj
  have htol : ¬ eps * eps < 0 := (mul_self_nonneg eps).not_gt
  simp [isDue, hcell, htol]

theorem ofMatrix_of_isDiagonal : ofMatrix m eps = start m :=
  ofMatrix_of_not_isDue fun _ _ => isDue_start hm eps

end Spectrum

/-! ## Roots -/

/-- A matrix with changed eigenvalues, cell by cell; a refused eigenvalue counts as
zero. -/
theorem Spectrum.entry_rebuild (s : Spectrum ℝ) (f : ℝ → Option ℝ) {i j : ℕ} (hij : i ≤ j)
    (hj : j < s.turned.order) :
    (s.rebuild f).entry i j =
      ∑ k ∈ range s.turned.order,
        (f (s.turned.entry k k)).getD 0 * s.basis.entry i k * s.basis.entry j k := by
  have hvalues : s.values.size = s.turned.order := Column.size_tabulate _ _
  have hchanged : ∀ k ∈ range s.turned.order,
      ((s.values.map f).getD k none).getD 0 * s.basis.entry i k * s.basis.entry j k =
        (f (s.turned.entry k k)).getD 0 * s.basis.entry i k * s.basis.entry j k := by
    intro k hk
    have hlt := mem_range.mp hk
    simp [Array.getD, hlt, values, Column.tabulate_eq_ofFn]
  refine (SymMatrix.entry_ofFn _ hij hj).trans ?_
  rw [Array.size_map, hvalues, ← sum_congr rfl hchanged]
  -- The fold adds every product in front of the sum so far.
  generalize s.turned.order = n
  induction n with
  | zero => rfl
  | succ n ih =>
    rw [Nat.fold_succ, ih, sum_range_succ, add_comm]
    cases (s.values.map f).getD n none <;> simp

namespace SymMatrix

variable {m : SymMatrix ℝ} (hm : m.IsDiagonal) (eps : ℝ)

include hm

theorem entry_sqrt {i j : ℕ} (hij : i ≤ j) (hj : j < m.order) :
    (m.sqrt eps).entry i j = if i = j then √(m.entry i i) else 0 := by
  have hroot : ∀ e : ℝ, (if 0 < e then some √e else none).getD 0 = √e := by
    intro e
    split
    · rfl
    · exact (Real.sqrt_eq_zero_of_nonpos (not_lt.mp ‹_›)).symm
  have hbasis : ∀ r c, r < m.order → c < m.order →
      (Spectrum.start m).basis.entry r c = if r = c then 1 else 0 :=
    fun r c hr hc => RectMatrix.entry_ofFn _ hr hc
  have hi : i < m.order := hij.trans_lt hj
  rw [sqrt, Spectrum.ofMatrix_of_isDiagonal hm, Spectrum.entry_rebuild _ _ hij hj]
  calc _ = ∑ k ∈ range m.order,
          √(m.entry k k) * (if i = k then 1 else 0) * if j = k then 1 else 0 := by
        apply sum_congr rfl
        intro k hk
        have hk := mem_range.mp hk
        rw [hbasis i k hi hk, hbasis j k hj hk]
        exact congrArg (· * _ * _) (hroot _)
    _ = if i = j then √(m.entry i i) else 0 := by
        simp only [mul_ite, mul_one, mul_zero, sum_ite_eq, mem_range, hj, if_true]
        rcases eq_or_ne i j with rfl | hne
        · rfl
        · rw [if_neg hne, if_neg hne]

omit hm in
theorem toMatrix_eq_diagonal {n : ℕ} {d : ℕ → ℝ}
    (h : ∀ i j, i ≤ j → j < n → m.entry i j = if i = j then d i else 0) :
    m.toMatrix n = diagonal fun i : Fin n => d i := by
  refine toMatrix_eq_of_upper (diagonal_transpose _) fun i j hij => ?_
  refine (h i j hij j.isLt).trans ?_
  rw [diagonal_apply]
  exact if_congr Fin.val_inj rfl rfl

theorem IsDiagonal.toMatrix_eq :
    m.toMatrix m.order = diagonal fun i : Fin m.order => m.entry i i := by
  refine toMatrix_eq_diagonal (d := fun i => m.entry i i) fun i j hij hj => ?_
  rcases hij.eq_or_lt with rfl | hlt
  · rw [if_pos rfl]
  · rw [if_neg hlt.ne, hm i j hlt hj]

/-- On a diagonal matrix the method through the spectrum is exact. -/
theorem sqrt_isRootOf (hnonneg : ∀ i < m.order, 0 ≤ m.entry i i) : (m.sqrt eps).IsRootOf m := by
  have hroot : (m.sqrt eps).toMatrix m.order = diagonal fun i : Fin m.order => √(m.entry i i) :=
    toMatrix_eq_diagonal fun i j => entry_sqrt hm eps
  refine ⟨m.order_sqrt eps, ?_⟩
  rw [hroot, hm.toMatrix_eq, diagonal_mul_diagonal]
  exact congrArg _ (funext fun i => Real.mul_self_sqrt (hnonneg i i.isLt))

end SymMatrix

/-! ## Validation -/

/-- The least of numbers that are not below zero is not below zero. -/
theorem Column.least?_nonneg {x : Column ℝ} (h : ∀ e ∈ x, 0 ≤ e) : ∀ m ∈ x.least?, 0 ≤ m := by
  rw [least?, ← Array.foldl_toList]
  have hlist : ∀ e ∈ x.toList, 0 ≤ e := fun e he => h e (Array.mem_toList_iff.mp he)
  -- The invariant of the fold: the least number so far, if any, is not below zero.
  have hacc : ∀ m ∈ (none : Option ℝ), 0 ≤ m := by simp
  generalize (none : Option ℝ) = acc at hacc
  generalize x.toList = es at hlist
  induction es generalizing acc with
  | nil => exact hacc
  | cons e es ih =>
    have he := hlist e (List.mem_cons_self ..)
    refine ih _ (fun m hm => ?_) fun e he => hlist e (List.mem_cons_of_mem _ he)
    simp only [Scalar.isNaN_real, Bool.false_eq_true, if_false, Option.mem_def,
      Option.some.injEq] at hm
    subst hm
    cases acc with
    | none => exact he
    | some a => exact (le_min (hacc a rfl) he).trans_eq (Scalar.min_real a e).symm

namespace Inputs

theorem finiteFault?_real (datum : Datum) (values : Column ℝ) :
    finiteFault? datum values = none := by
  simp [finiteFault?]

theorem definiteFault?_of_isDiagonal {m : SymMatrix ℝ} (hm : m.IsDiagonal)
    (hnonneg : ∀ i < m.order, 0 ≤ m.entry i i) {tol : ℝ} (htol : 0 ≤ tol) (eps : ℝ) :
    definiteFault? tol eps (.packed m) = none := by
  have hvalues : ∀ e ∈ (Spectrum.start m).values, 0 ≤ e := by
    intro e he
    rw [Spectrum.values, Column.tabulate_eq_ofFn, Array.mem_ofFn] at he
    obtain ⟨i, rfl⟩ := he
    exact hnonneg i i.isLt
  have hleast : 0 ≤ (m.spectralRange eps).least := by
    rw [SymMatrix.spectralRange, Spectrum.ofMatrix_of_isDiagonal hm]
    cases hvalue : (Spectrum.start m).values.least? with
    | none => exact le_rfl
    | some e => exact Column.least?_nonneg hvalues e hvalue
  have hbound : -tol * Scalar.max 1 (m.spectralRange eps).maxAbs ≤ 0 := by
    rw [Scalar.max_real, neg_mul]
    exact neg_nonpos.mpr (mul_nonneg htol (le_max_of_le_left zero_le_one))
  rw [definiteFault?, Covariance.symmetrize]
  exact if_neg (not_lt.mpr (hbound.trans hleast))

/-- Inputs with a diagonal covariance pass validation by their sizes and signs. -/
theorem validate_of_isDiagonal {inp : Inputs ℝ} {par : Settings ℝ} {m : SymMatrix ℝ}
    (hcovariance : inp.covariance = .packed m) (hm : m.IsDiagonal)
    (hnonneg : ∀ i < m.order, 0 ≤ m.entry i i) (hpos : 0 < inp.assets)
    (horder : m.order = inp.assets) (hallocation : inp.allocation.size = inp.assets)
    (hgrowth : inp.growth.size = inp.assets) (hκ : 0 ≤ inp.riskAversion)
    (hsign : ∀ e ∈ inp.growth, 0 < e) (htol : 0 ≤ par.psdTol) :
    inp.validate par = .ok inp.assets := by
  refine validate_eq_ok_iff.mpr ⟨rfl, ?_⟩
  have hsize : Covariance.size (.packed m) = (inp.assets, inp.assets) := by
    rw [Covariance.size, horder]
  have hdefinite := definiteFault?_of_isDiagonal hm hnonneg htol par.solver.epsZero
  have hgrowthFault : growthFault? inp.growth = none :=
    growthFault?_eq_none_iff.mpr fun e he => not_le.mpr (hsign e he)
  simp [fault?, hpos.ne', sizeFault?, hsize, hallocation, hgrowth, finiteFault?_real, hκ,
    hgrowthFault, hcovariance, symmetryFault?, hdefinite]

/-! ## Two assets -/

/-- Two assets that do not move together. Nothing is expected of the first one, and
growth couples to half of what is taken from it. -/
noncomputable def twoAssets : Inputs ℝ where
  returns := #[0, Scalar.two + Scalar.half]
  covariance := .packed (.ofFn 2 fun i j => if i = j then i + 1 else 0)
  riskAversion := Scalar.half
  coupling := Scalar.half
  allocation := #[1, 1]
  growth := #[1, 1]

theorem entry_twoAssets {i j : ℕ} (hij : i ≤ j) (hj : j < 2) :
    twoAssets.covariance.symmetrize.entry i j = if i = j then (i : ℝ) + 1 else 0 :=
  SymMatrix.entry_ofFn _ hij hj

theorem order_twoAssets : twoAssets.covariance.symmetrize.order = 2 := SymMatrix.order_ofFn _ _

theorem isDiagonal_twoAssets : twoAssets.covariance.symmetrize.IsDiagonal := by
  intro i j hij hj
  exact (entry_twoAssets hij.le (order_twoAssets ▸ hj)).trans (if_neg hij.ne)

theorem entry_twoAssets_nonneg :
    ∀ i < twoAssets.covariance.symmetrize.order, 0 ≤ twoAssets.covariance.symmetrize.entry i i := by
  intro i hi
  rw [entry_twoAssets le_rfl (order_twoAssets ▸ hi), if_pos rfl]
  positivity

theorem isRootOf_twoAssets (eps : ℝ) :
    (twoAssets.covariance.symmetrize.sqrt eps).IsRootOf twoAssets.covariance.symmetrize :=
  SymMatrix.sqrt_isRootOf isDiagonal_twoAssets eps entry_twoAssets_nonneg

theorem validate_twoAssets : twoAssets.validate Settings.default = .ok 2 := by
  refine validate_of_isDiagonal rfl isDiagonal_twoAssets entry_twoAssets_nonneg ?_
    order_twoAssets rfl rfl ?_ ?_ psdTol_default_nonneg
  · exact Nat.two_pos
  · norm_num [twoAssets]
  · simp [twoAssets]

theorem quadForm_twoAssets {z : Column ℝ} (hz : z.size = 2) :
    twoAssets.covariance.quadForm z = z.coord 0 ^ 2 + 2 * z.coord 1 ^ 2 := by
  have hcell : ∀ r c, twoAssets.covariance.entry r c = twoAssets.covariance.symmetrize.entry r c :=
    fun _ _ => rfl
  have hbelow : twoAssets.covariance.symmetrize.entry 1 0 = 0 :=
    (SymMatrix.entry_comm _ 1 0).trans (entry_twoAssets zero_le_one one_lt_two)
  simp only [Covariance.quadForm_real, hz, sum_range_succ, sum_range_zero, hcell, hbelow,
    entry_twoAssets le_rfl two_pos, entry_twoAssets zero_le_one one_lt_two,
    entry_twoAssets le_rfl one_lt_two]
  norm_num
  ring

theorem returns_twoAssets : twoAssets.returns = #[0, 5 / 2] := by
  norm_num [twoAssets]

theorem riskAversion_twoAssets : twoAssets.riskAversion = 1 / 2 := Scalar.half_real

theorem expectedReturn_twoAssets {z : Column ℝ} (hz : z.size = 2) :
    expectedReturn twoAssets.returns z = 5 / 2 * z.coord 1 := by
  have hsize : min twoAssets.returns.size z.size = 2 := by
    rw [hz]
    rfl
  rw [expectedReturn, hsize, sumTo_real, returns_twoAssets]
  simp [sum_range_succ, Column.coord]

theorem objective_twoAssets {z : Column ℝ} (hz : z.size = 2) :
    objective twoAssets.returns twoAssets.covariance twoAssets.riskAversion z =
      5 / 2 * z.coord 1 - 1 / 2 * (z.coord 0 ^ 2 + 2 * z.coord 1 ^ 2) := by
  rw [objective, expectedReturn_twoAssets hz, quadForm_twoAssets hz, riskAversion_twoAssets]

end Inputs

end Rebalancing
