-- SUMMARY: The points of a trade program are the admissible trades, and its least cost over a trade is the return that the trade gives up.
import Mathlib
import Rebalancing.Proofs.Diagonal
import Rebalancing.Proofs.GeometricMean
import Rebalancing.Proofs.Trade
import Rebalancing.Proofs.TradeProgram.Slack
import Rebalancing.Proofs.Validation

/-!
# Exactness of trade programs

A trade can be completed to a point of the program exactly when it takes and adds
nothing below zero and leaves a growth proxy that is not below zero and whose
geometric mean did not fall. The least cost of its completions is the expected
return of the current allocation less the objective of the new one.
-/

open Finset Matrix

namespace Rebalancing

/-! ## Stacked columns -/

/-- The column `[δ; λ; u; t]`. -/
def Trade.stack (t : Trade ℝ) (u : Column ℝ) (bound : ℝ) : Column ℝ :=
  t.delta ++ t.lam ++ (u ++ #[bound])

namespace Trade.OfSize

variable {t : Trade ℝ} {n : ℕ} (ht : t.OfSize n) (u : Column ℝ) (bound : ℝ)

include ht

theorem size_stack : (t.stack u bound).size = 2 * n + u.size + 1 := by
  simp only [stack, Array.size_append, ht.size_delta, ht.size_lam, List.size_toArray,
    List.length_singleton]
  ring

theorem coord_stack_delta {i : ℕ} (hi : i < n) : (t.stack u bound).coord i = t.delta.coord i :=
  GrowthTree.coord_stacked_delta _ (ht.size_delta.symm ▸ hi)

theorem coord_stack_lam {i : ℕ} (hi : i < n) : (t.stack u bound).coord (n + i) = t.lam.coord i := by
  have hlam : i < t.lam.size := ht.size_lam.symm ▸ hi
  rw [← ht.size_delta]
  exact GrowthTree.coord_stacked_lam _ hlam

theorem coord_stack_rest (k : ℕ) :
    (t.stack u bound).coord (2 * n + k) = Column.coord (u ++ #[bound]) k := by
  have hindex : 2 * n + k = t.delta.size + t.lam.size + k := by
    rw [ht.size_delta, ht.size_lam, two_mul]
  rw [hindex, stack, GrowthTree.coord_stacked_rest]

theorem coord_stack_bound : (t.stack u bound).coord (2 * n + u.size) = bound := by
  rw [ht.coord_stack_rest, Column.coord_append, if_neg (lt_irrefl _), Nat.sub_self]
  rfl

theorem slice_stack_delta : (t.stack u bound).slice 0 n = t.delta := by
  apply Column.ext_coord ((Column.size_slice _ _ _).trans ht.size_delta.symm)
  intro i hi
  rw [Column.size_slice] at hi
  rw [Column.coord_slice _ _ hi, Nat.zero_add, ht.coord_stack_delta u bound hi]

theorem slice_stack_lam : (t.stack u bound).slice n n = t.lam := by
  apply Column.ext_coord ((Column.size_slice _ _ _).trans ht.size_lam.symm)
  intro i hi
  rw [Column.size_slice] at hi
  rw [Column.coord_slice _ _ hi, ht.coord_stack_lam u bound hi]

end Trade.OfSize

namespace Inputs

/-- What validation grants, and a root of the covariance. -/
structure Proper (inp : Inputs ℝ) (root : RootMethod ℝ) (epsZero : ℝ) : Prop extends inp.Sized where
  riskAversion_nonneg : 0 ≤ inp.riskAversion
  growth_pos : ∀ i < inp.assets, 0 < inp.growth.coord i
  isRootOf : (root inp.covariance.symmetrize epsZero).IsRootOf inp.covariance.symmetrize

/-- The cheapest completion of a trade: the tight values of the growth tree, and the
variance of the new allocation as its own bound. -/
noncomputable def cheapest (inp : Inputs ℝ) (root : RootMethod ℝ) (epsZero : ℝ) (t : Trade ℝ) :
    Column ℝ :=
  t.stack ((inp.program root epsZero).tree.tightFor t.delta t.lam)
    (inp.riskAversion * inp.covariance.quadForm (t.newAllocation inp.allocation))

section Points

variable {inp : Inputs ℝ} {root : RootMethod ℝ} {epsZero : ℝ} (hinp : inp.Proper root epsZero)

theorem proper_of_validate {par : Settings ℝ} {n : ℕ} (hvalid : inp.validate par = .ok n)
    (hpsd : inp.covariance.symmetrize.Semidefinite)
    (hroot : root.ExactAt inp.covariance.symmetrize epsZero) : inp.Proper root epsZero := by
  have hsized := (sized_of_validate hvalid).1
  refine ⟨hsized, riskAversion_nonneg hvalid, fun i hi => ?_, hroot hpsd⟩
  exact growth_pos hvalid (hsized.size_growth.symm ▸ hi)

include hinp

theorem sized_program : (inp.program root epsZero).Sized where
  order_riskRoot :=
    (SymMatrix.order_ofFn _ _).trans
      (hinp.isRootOf.order_eq.trans (Covariance.order_symmetrize hinp.size_covariance))
  size_riskNow := Column.size_tabulate _ _
  assets_tree := hinp.size_growth

/-- The floor of the growth tree is the geometric mean before the trade. -/
theorem floor_pow_program :
    (inp.program root epsZero).tree.floor ^ inp.assets =
      ∏ i ∈ range inp.assets, inp.growth.coord i := by
  have hpow := Column.geometricMean_pow (hinp.size_growth ▸ hinp.assets_pos)
    (hinp.size_growth ▸ hinp.growth_pos)
  rwa [hinp.size_growth] at hpow

theorem floor_nonneg_program : 0 ≤ (inp.program root epsZero).tree.floor :=
  (Column.geometricMean_pos (hinp.size_growth ▸ hinp.assets_pos)).le

/-! ## Risk and cost of a trade -/

variable {t : Trade ℝ} (ht : t.OfSize inp.assets) {u : Column ℝ} {bound : ℝ}

include ht

theorem risk_stack (i : Fin inp.assets) :
    (inp.program root epsZero).risk (t.stack u bound) i =
      ((inp.program root epsZero).riskRoot.toMatrix inp.assets *ᵥ
        (t.newAllocation inp.allocation).vec inp.assets) i := by
  let p := inp.program root epsZero
  have horder : p.riskRoot.order = inp.assets := (sized_program hinp).order_riskRoot
  have hnow : p.riskNow.coord i = p.riskRoot.rowDot i inp.allocation 0 := by
    have hi : i.val < inp.returns.size := i.isLt
    exact (Column.coord_tabulate _ _ _).trans (if_pos hi)
  have hafter : (t.newAllocation inp.allocation).vec inp.assets =
      (fun c : Fin inp.assets => inp.allocation.coord (0 + c)) -
          (fun c : Fin inp.assets => (t.stack u bound).coord (0 + c)) +
        fun c : Fin inp.assets => (t.stack u bound).coord (inp.assets + c) := by
    ext c
    simp only [Column.vec, Pi.add_apply, Pi.sub_apply, Nat.zero_add,
      ht.coord_newAllocation hinp.size_allocation c.isLt, ht.coord_stack_delta u bound c.isLt,
      ht.coord_stack_lam u bound c.isLt]
  -- `S (z - δ + λ)` apart into the three products that the program stores or forms.
  rw [hafter, mulVec_add, mulVec_sub]
  simp only [Pi.add_apply, Pi.sub_apply]
  rw [← SymMatrix.rowDot_eq_mulVec horder, ← SymMatrix.rowDot_eq_mulVec horder,
    ← SymMatrix.rowDot_eq_mulVec horder]
  exact congrArg₂ _ (congrArg₂ _ hnow rfl) rfl

/-- The squared risk of a trade is twice the risk aversion times the variance of the
new allocation. -/
theorem sum_risk_sq :
    ∑ i ∈ range inp.assets, (inp.program root epsZero).risk (t.stack u bound) i ^ 2 =
      2 * (inp.riskAversion * inp.covariance.quadForm (t.newAllocation inp.allocation)) := by
  let after := (t.newAllocation inp.allocation).vec inp.assets
  have horder := Covariance.order_symmetrize hinp.size_covariance
  have hscale : (inp.program root epsZero).riskRoot.toMatrix inp.assets =
      √(inp.riskAversion + inp.riskAversion) •
        (root inp.covariance.symmetrize epsZero).toMatrix inp.assets :=
    SymMatrix.toMatrix_scale (hinp.isRootOf.order_eq.trans horder) _
  have hsquare : √(inp.riskAversion + inp.riskAversion) * √(inp.riskAversion + inp.riskAversion) =
      2 * inp.riskAversion := by
    have hnonneg := hinp.riskAversion_nonneg
    rw [Real.mul_self_sqrt (by linarith), two_mul]
  have hform := hinp.isRootOf.dotProduct_mulVec
    ((t.newAllocation inp.allocation).vec inp.covariance.symmetrize.order)
  rw [horder] at hform
  rw [Covariance.quadForm_symmetrize hinp.size_covariance
    (ht.size_newAllocation hinp.size_allocation), ← hform, sum_range]
  calc ∑ i : Fin inp.assets, (inp.program root epsZero).risk (t.stack u bound) i ^ 2
      = ((inp.program root epsZero).riskRoot.toMatrix inp.assets *ᵥ after) ⬝ᵥ
          ((inp.program root epsZero).riskRoot.toMatrix inp.assets *ᵥ after) := by
        apply sum_congr rfl
        intro i _
        rw [risk_stack hinp ht i, sq]
    -- The factor `√(2 κ)` comes out of both sides of the product.
    _ = _ := by
        rw [hscale, smul_mulVec, smul_dotProduct, dotProduct_smul, smul_eq_mul, smul_eq_mul,
          ← mul_assoc, hsquare, mul_assoc]

theorem expectedReturn_newAllocation :
    expectedReturn inp.returns (t.newAllocation inp.allocation) =
      ∑ i ∈ range inp.assets, inp.returns.coord i * inp.allocation.coord i -
        ∑ i ∈ range inp.assets, inp.returns.coord i * t.delta.coord i +
          ∑ i ∈ range inp.assets, inp.returns.coord i * t.lam.coord i := by
  rw [expectedReturn, ht.size_newAllocation hinp.size_allocation, sumTo_real, ← assets, min_self,
    ← sum_sub_distrib, ← sum_add_distrib]
  apply sum_congr rfl
  intro i hi
  rw [ht.coord_newAllocation hinp.size_allocation (mem_range.mp hi)]
  ring

theorem costAt_stack (hu : u.size = (inp.program root epsZero).auxiliaries) :
    (inp.program root epsZero).conic.costAt (t.stack u bound) =
      expectedReturn inp.returns inp.allocation -
        expectedReturn inp.returns (t.newAllocation inp.allocation) + bound := by
  have hdelta : ∀ i ∈ range inp.assets, inp.returns.coord i * (t.stack u bound).coord i =
      inp.returns.coord i * t.delta.coord i :=
    fun i hi => by rw [ht.coord_stack_delta u bound (mem_range.mp hi)]
  have hlam : ∀ i ∈ range inp.assets,
      inp.returns.coord i * (t.stack u bound).coord (inp.assets + i) =
        inp.returns.coord i * t.lam.coord i :=
    fun i hi => by rw [ht.coord_stack_lam u bound (mem_range.mp hi)]
  have hassets : (inp.program root epsZero).assets = inp.assets := rfl
  have hreturns : (inp.program root epsZero).returns = inp.returns := rfl
  rw [TradeProgram.costAt_conic, hassets, hreturns, ← hu, ht.coord_stack_bound,
    sum_congr rfl hdelta, sum_congr rfl hlam, expectedReturn_newAllocation hinp ht, expectedReturn,
    hinp.size_allocation, ← assets, min_self, sumTo_real]
  ring

/-! ## Completions of a trade -/

theorem feasible_stack_iff (hu : u.size = (inp.program root epsZero).auxiliaries) :
    (inp.program root epsZero).conic.Feasible (t.stack u bound) ↔
      inp.riskAversion * inp.covariance.quadForm (t.newAllocation inp.allocation) ≤ bound ∧
        GrowthTree.InCones (inp.program root epsZero).tree.inner
          ((inp.program root epsZero).tree.slack (t.stack u bound)) ∧
        (∀ i < inp.assets, 0 ≤ t.delta.coord i) ∧ ∀ i < inp.assets, 0 ≤ t.lam.coord i := by
  have hrisk : ∑ i ∈ range inp.assets, (inp.program root epsZero).risk (t.stack u bound) i ^ 2 =
      2 * (inp.riskAversion * inp.covariance.quadForm (t.newAllocation inp.allocation)) :=
    sum_risk_sq hinp ht
  have hbound : (inp.program root epsZero).bound (t.stack u bound) = bound := by
    rw [TradeProgram.bound, ← hu]
    exact ht.coord_stack_bound u bound
  have hsize : (t.stack u bound).size = (inp.program root epsZero).cols := by
    rw [ht.size_stack, hu]
    rfl
  rw [TradeProgram.feasible_iff (sized_program hinp), and_iff_right hsize]
  constructor
  · intro h
    have hle := h.risk_sq_le
    rw [hbound] at hle
    refine ⟨by linarith [hrisk.symm.trans_le hle], h.inCones, fun i hi => ?_, fun i hi => ?_⟩
    · exact ht.coord_stack_delta u bound hi ▸ h.delta_nonneg i hi
    · exact ht.coord_stack_lam u bound hi ▸ h.lam_nonneg i hi
  · rintro ⟨hle, hcones, hdelta, hlam⟩
    have hnonneg : 0 ≤ ∑ i ∈ range inp.assets,
        (inp.program root epsZero).risk (t.stack u bound) i ^ 2 :=
      sum_nonneg fun i _ => sq_nonneg _
    refine ⟨?_, ?_, hcones, fun i hi => ?_, fun i hi => ?_⟩
    · rw [hbound]
      linarith
    · rw [hbound]
      exact hrisk.trans_le (by linarith)
    · exact (ht.coord_stack_delta u bound hi).symm ▸ hdelta i hi
    · exact (ht.coord_stack_lam u bound hi).symm ▸ hlam i hi

omit ht in
/-- Admissible are the trades that the growth tree admits and that take and add
nothing below zero. -/
theorem admits_iff :
    inp.Admits t ↔ (inp.program root epsZero).tree.Admits t.delta t.lam ∧
      (∀ i < inp.assets, 0 ≤ t.delta.coord i) ∧ ∀ i < inp.assets, 0 ≤ t.lam.coord i := by
  have hassets : (inp.program root epsZero).tree.assets = inp.assets := hinp.size_growth
  have hfloor := floor_pow_program hinp
  constructor
  · intro h
    refine ⟨⟨hassets.symm ▸ h.newGrowth_nonneg, ?_⟩, h.delta_nonneg, h.lam_nonneg⟩
    rw [hassets, hfloor]
    exact h.prod_le
  · rintro ⟨htree, hdelta, hlam⟩
    refine ⟨hdelta, hlam, hassets ▸ htree.newGrowth_nonneg, ?_⟩
    rw [← hfloor]
    exact hassets ▸ htree.floor_pow_le

/-- Every completion of a trade shows that the trade is admissible. -/
theorem admits_of_feasible (hu : u.size = (inp.program root epsZero).auxiliaries)
    (h : (inp.program root epsZero).conic.Feasible (t.stack u bound)) : inp.Admits t := by
  obtain ⟨-, hcones, hdelta, hlam⟩ := (feasible_stack_iff hinp ht hu).mp h
  have hassets : (inp.program root epsZero).tree.assets = inp.assets := hinp.size_growth
  refine (admits_iff hinp).mpr ⟨?_, hdelta, hlam⟩
  exact GrowthTree.admits_of_inCones (hassets ▸ hinp.assets_pos) (floor_nonneg_program hinp)
    (ht.size_delta.trans hassets.symm) (ht.size_lam.trans hassets.symm) hcones

/-- A completion costs at least the return that the trade gives up. -/
theorem le_costAt_of_feasible (hu : u.size = (inp.program root epsZero).auxiliaries)
    (h : (inp.program root epsZero).conic.Feasible (t.stack u bound)) :
    expectedReturn inp.returns inp.allocation -
        objective inp.returns inp.covariance inp.riskAversion (t.newAllocation inp.allocation) ≤
      (inp.program root epsZero).conic.costAt (t.stack u bound) := by
  have hle := ((feasible_stack_iff hinp ht hu).mp h).1
  rw [costAt_stack hinp ht hu, objective]
  linarith

theorem feasible_cheapest (h : inp.Admits t) :
    (inp.program root epsZero).conic.Feasible (inp.cheapest root epsZero t) := by
  have hassets : (inp.program root epsZero).tree.assets = inp.assets := hinp.size_growth
  obtain ⟨htree, hdelta, hlam⟩ := (admits_iff hinp).mp h
  refine (feasible_stack_iff hinp ht (GrowthTree.size_tightFor _ _ _)).mpr
    ⟨le_rfl, ?_, hdelta, hlam⟩
  exact GrowthTree.inCones_tightFor (hassets ▸ hinp.assets_pos) (floor_nonneg_program hinp)
    (ht.size_delta.trans hassets.symm) (ht.size_lam.trans hassets.symm) _ htree

theorem costAt_cheapest :
    (inp.program root epsZero).conic.costAt (inp.cheapest root epsZero t) =
      expectedReturn inp.returns inp.allocation -
        objective inp.returns inp.covariance inp.riskAversion (t.newAllocation inp.allocation) := by
  rw [cheapest, costAt_stack hinp ht (GrowthTree.size_tightFor _ _ _), objective]
  ring

end Points

/-- Validated inputs have a program. A trade has a completion to a point of that
program exactly when it is admissible, and then the least cost of its completions
is the return that it gives up: the expected return of the current allocation
less the objective of the new one. -/
theorem exists_program_exact {inp : Inputs ℝ} {par : Settings ℝ} {n : ℕ}
    (hvalid : inp.validate par = .ok n) (root : RootMethod ℝ) (epsZero : ℝ)
    (hpsd : inp.covariance.symmetrize.Semidefinite)
    (hroot : root.ExactAt inp.covariance.symmetrize epsZero) :
    ∃ p, inp.program? root epsZero = some p ∧
      ∀ t : Trade ℝ, t.OfSize n →
        ((∃ u bound, u.size = p.auxiliaries ∧ p.conic.Feasible (t.stack u bound)) ↔
          inp.Admits t) ∧
        (inp.Admits t →
          ∃ v, objective? inp.returns inp.covariance inp.riskAversion
              (t.newAllocation inp.allocation) = some v ∧
            IsLeast {c | ∃ u bound, u.size = p.auxiliaries ∧ p.conic.Feasible (t.stack u bound) ∧
                c = p.conic.costAt (t.stack u bound)}
              (expectedReturn inp.returns inp.allocation - v)) := by
  have hinp := proper_of_validate hvalid hpsd hroot
  have hn := (sized_of_validate hvalid).2
  refine ⟨_, program?_eq_some root epsZero hinp.toSized, fun t ht => ?_⟩
  have ht : t.OfSize inp.assets := hn ▸ ht
  have hu := (inp.program root epsZero).tree.size_tightFor t.delta t.lam
  constructor
  · constructor
    · rintro ⟨u, bound, hu, hfeasible⟩
      exact admits_of_feasible hinp ht hu hfeasible
    · intro h
      exact ⟨_, _, hu, feasible_cheapest hinp ht h⟩
  · intro h
    have hafter := ht.size_newAllocation hinp.size_allocation
    refine ⟨_, hinp.objective?_eq_some hafter, ?_, ?_⟩
    · exact ⟨_, _, hu, feasible_cheapest hinp ht h, (costAt_cheapest hinp ht).symm⟩
    · rintro c ⟨u, bound, hu, hfeasible, rfl⟩
      exact le_costAt_of_feasible hinp ht hu hfeasible

/-! ## Two assets -/

/-- Sell the first of the two assets and add a quarter to the second one. -/
noncomputable def swapTwo : Trade ℝ where
  delta := #[1, 0]
  lam := #[0, 1 / 4]

theorem ofSize_swapTwo : swapTwo.OfSize 2 := ⟨rfl, rfl⟩

theorem admits_swapTwo : twoAssets.Admits swapTwo := by
  have hassets : twoAssets.assets = 2 := rfl
  refine ⟨fun i hi => ?_, fun i hi => ?_, fun i hi => ?_, ?_⟩
  · have hi : i < 2 := hi
    interval_cases i <;> norm_num [swapTwo, Column.coord]
  · have hi : i < 2 := hi
    interval_cases i <;> norm_num [swapTwo, Column.coord]
  · have hi : i < 2 := hi
    interval_cases i <;> norm_num [twoAssets, swapTwo, Column.coord]
  · simp only [hassets, prod_range_succ, prod_range_zero]
    norm_num [twoAssets, swapTwo, Column.coord]

theorem objective_swapTwo :
    objective twoAssets.returns twoAssets.covariance twoAssets.riskAversion
      (swapTwo.newAllocation twoAssets.allocation) = 25 / 16 := by
  have hallocation : twoAssets.allocation.size = 2 := rfl
  rw [objective_twoAssets (ofSize_swapTwo.size_newAllocation hallocation),
    ofSize_swapTwo.coord_newAllocation hallocation Nat.two_pos,
    ofSize_swapTwo.coord_newAllocation hallocation Nat.one_lt_two]
  norm_num [twoAssets, swapTwo, Column.coord]

/-- Selling the first of two assets pays for a quarter more of the second. That much
of the second one alone is not a point of the program. -/
theorem exists_program_exact_twoAssets :
    twoAssets.validate Settings.default = .ok 2 ∧
      twoAssets.covariance.symmetrize.Semidefinite ∧
      RootMethod.ExactAt SymMatrix.sqrt twoAssets.covariance.symmetrize 0 ∧
      ∃ p, twoAssets.program? SymMatrix.sqrt 0 = some p ∧
        IsLeast {c | ∃ u bound, u.size = p.auxiliaries ∧ p.conic.Feasible (swapTwo.stack u bound) ∧
            c = p.conic.costAt (swapTwo.stack u bound)} (15 / 16) ∧
        ¬ ∃ u bound, u.size = p.auxiliaries ∧
          p.conic.Feasible (Trade.stack { delta := #[0, 0], lam := #[0, 1 / 4] } u bound) := by
  have hpsd := (isRootOf_twoAssets 0).semidefinite
  have hroot : RootMethod.ExactAt SymMatrix.sqrt twoAssets.covariance.symmetrize 0 :=
    fun _ => isRootOf_twoAssets 0
  refine ⟨validate_twoAssets, hpsd, hroot, ?_⟩
  obtain ⟨p, hp, hexact⟩ := exists_program_exact validate_twoAssets SymMatrix.sqrt 0 hpsd hroot
  refine ⟨p, hp, ?_, fun h => ?_⟩
  · obtain ⟨v, hv, hleast⟩ := (hexact swapTwo ofSize_swapTwo).2 admits_swapTwo
    have hsized := (sized_of_validate validate_twoAssets).1
    have hobjective : v = 25 / 16 := by
      rw [← objective_swapTwo]
      exact (Option.some.inj ((hsized.objective?_eq_some
        (ofSize_swapTwo.size_newAllocation rfl)).symm.trans hv)).symm
    have hreturn : expectedReturn twoAssets.returns twoAssets.allocation = 5 / 2 := by
      rw [expectedReturn_twoAssets rfl]
      norm_num [twoAssets, Column.coord]
    have hcost : expectedReturn twoAssets.returns twoAssets.allocation - v = 15 / 16 := by
      rw [hreturn, hobjective]
      norm_num
    exact hcost ▸ hleast
  · have hprod := ((hexact { delta := #[0, 0], lam := #[0, 1 / 4] } ⟨rfl, rfl⟩).1.mp h).prod_le
    have hassets : twoAssets.assets = 2 := rfl
    simp only [hassets, prod_range_succ, prod_range_zero] at hprod
    norm_num [twoAssets, Column.coord] at hprod

end Inputs

end Rebalancing
