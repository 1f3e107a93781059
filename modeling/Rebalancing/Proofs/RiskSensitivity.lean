-- SUMMARY: More risk aversion leads to decisions of no more variance and no more expected return.
import Mathlib
import Rebalancing.Proofs.Optimality

/-!
# Risk sensitivity

The risk aversion weighs variance against expected return, but it has no say in which
trades are admissible. So the decisions of two rebalances that differ in it are both
open to either, and each is at least as good as the other one by its own weight.
-/

namespace Rebalancing

/-- Of two choices that are each best by a weight of their own, the one with the greater
weight has no more variance and no more return. -/
theorem antitone_of_best {κ₁ κ₂ e₁ e₂ v₁ v₂ : ℝ} (hκ : 0 ≤ κ₁) (hlt : κ₁ < κ₂)
    (h₁ : e₂ - κ₁ * v₂ ≤ e₁ - κ₁ * v₁) (h₂ : e₁ - κ₂ * v₁ ≤ e₂ - κ₂ * v₂) :
    v₂ ≤ v₁ ∧ e₂ ≤ e₁ := by
  have hgap : 0 ≤ (κ₂ - κ₁) * (v₁ - v₂) := by linarith
  have hvariance : 0 ≤ v₁ - v₂ := nonneg_of_mul_nonneg_right hgap (by linarith)
  have hshare : 0 ≤ κ₁ * (v₁ - v₂) := mul_nonneg hκ hvariance
  constructor <;> linarith

/-! ## Best trades -/

/-- A rebalance whose solver finds a minimiser reports for a best admissible trade: that
is the only decision it can make, and it makes it if it tolerates noise at all. -/
theorem exists_best_report {inp : Inputs ℝ} {par : Settings ℝ} {n : ℕ}
    (hvalid : inp.validate par = .ok n) {root : RootMethod ℝ}
    (hinp : inp.Proper root par.solver.epsZero) {solver : ConicSolver ℝ}
    (hsolver : ∀ p, inp.program? root par.solver.epsZero = some p →
      ∃ x, solver par.solver p.conic = some (.ok x) ∧ p.conic.IsMinimiser x) :
    ∃ t report, t.OfSize inp.assets ∧ inp.Admits t ∧
      (∀ t' : Trade ℝ, t'.OfSize inp.assets → inp.Admits t' →
        objective inp.returns inp.covariance inp.riskAversion (t'.newAllocation inp.allocation) ≤
          objective inp.returns inp.covariance inp.riskAversion (t.newAllocation inp.allocation)) ∧
      rebalanceBy root par solver inp = some report ∧
      (0 ≤ par.epsClip → report.result = .ok (inp.decision t)) ∧
      ∀ d, report.result = .ok d → d = inp.decision t := by
  obtain ⟨x, hx, hmin⟩ := hsolver _ (Inputs.program?_eq_some root _ hinp.toSized)
  obtain ⟨t, u, bound, ht, hu, rfl⟩ := Inputs.exists_stack hmin.feasible.1
  have hadmits : inp.Admits t := Inputs.admits_of_feasible hinp ht hu hmin.feasible
  have hclipped : (t.stack u bound).clippedTrade inp.assets = t := by
    rw [clippedTrade_eq_trade fun _ _ => rfl, hadmits.trade_stack ht]
  obtain ⟨report, hreport, hpasses, hrefused⟩ := rebalanceBy_of_answer hvalid hx hmin.feasible.1
  rw [hclipped] at hpasses
  refine ⟨t, report, ht, hadmits, ?_, hreport, ?_, ?_⟩
  · exact fun t' ht' => Inputs.objective_le_of_isMinimiser hinp ht ht' hu hmin
  · intro heps
    exact hpasses ((passes_iff_accepts hinp.toSized _ fun _ _ => rfl).mpr
      (hadmits.accepts hinp ht heps u bound))
  · intro d hd
    by_cases h : inp.Passes par.epsClip (t.stack u bound)
    · exact Except.ok.inj (hd.symm.trans (hpasses h))
    · cases hd.symm.trans (hrefused h)

/-- Two rebalances that differ in nothing but their risk aversion, with a solver that
finds a minimiser of each program that it is handed, decide with no more variance and no
more expected return where the risk aversion is greater. -/
theorem rebalanceBy_antitone_riskAversion {inp : Inputs ℝ} {par : Settings ℝ} {κ₁ κ₂ : ℝ}
    {n₁ n₂ : ℕ} (hlt : κ₁ < κ₂)
    (hvalid₁ : Inputs.validate { inp with riskAversion := κ₁ } par = .ok n₁)
    (hvalid₂ : Inputs.validate { inp with riskAversion := κ₂ } par = .ok n₂)
    (root : RootMethod ℝ) (hpsd : inp.covariance.symmetrize.Semidefinite)
    (hroot : root.ExactAt inp.covariance.symmetrize par.solver.epsZero) (solver : ConicSolver ℝ)
    (hsolver : ∀ κ, κ = κ₁ ∨ κ = κ₂ → ∀ p,
      Inputs.program? root { inp with riskAversion := κ } par.solver.epsZero = some p →
        ∃ x, solver par.solver p.conic = some (.ok x) ∧ p.conic.IsMinimiser x) :
    ∃ report₁ report₂,
      rebalanceBy root par solver { inp with riskAversion := κ₁ } = some report₁ ∧
      rebalanceBy root par solver { inp with riskAversion := κ₂ } = some report₂ ∧
      (0 ≤ par.epsClip → (∃ d, report₁.result = .ok d) ∧ ∃ d, report₂.result = .ok d) ∧
      ∀ d₁ d₂, report₁.result = .ok d₁ → report₂.result = .ok d₂ →
        ∃ v₁ v₂ e₁ e₂,
          d₁.trade.variance? inp.covariance inp.allocation = some v₁ ∧
          d₂.trade.variance? inp.covariance inp.allocation = some v₂ ∧
          d₁.trade.expectedReturn? inp.returns inp.allocation = some e₁ ∧
          d₂.trade.expectedReturn? inp.returns inp.allocation = some e₂ ∧
          v₂ ≤ v₁ ∧ e₂ ≤ e₁ := by
  have hinp₁ := Inputs.proper_of_validate hvalid₁ hpsd hroot
  have hinp₂ := Inputs.proper_of_validate hvalid₂ hpsd hroot
  obtain ⟨t₁, report₁, ht₁, hadmits₁, hbest₁, hreport₁, hok₁, hdecision₁⟩ :=
    exists_best_report hvalid₁ hinp₁ (hsolver κ₁ (.inl rfl))
  obtain ⟨t₂, report₂, ht₂, hadmits₂, hbest₂, hreport₂, hok₂, hdecision₂⟩ :=
    exists_best_report hvalid₂ hinp₂ (hsolver κ₂ (.inr rfl))
  refine ⟨report₁, report₂, hreport₁, hreport₂, fun heps => ⟨⟨_, hok₁ heps⟩, _, hok₂ heps⟩, ?_⟩
  intro d₁ d₂ hd₁ hd₂
  rw [hdecision₁ d₁ hd₁, hdecision₂ d₂ hd₂]
  refine ⟨_, _, _, _, hinp₁.variance?_eq_some ht₁, hinp₂.variance?_eq_some ht₂,
    hinp₁.expectedReturn?_eq_some ht₁, hinp₂.expectedReturn?_eq_some ht₂, ?_⟩
  -- What is admissible does not depend on the risk aversion.
  have hfirst := hbest₁ t₂ ht₂ ⟨hadmits₂.1, hadmits₂.2, hadmits₂.3, hadmits₂.4⟩
  have hsecond := hbest₂ t₁ ht₁ ⟨hadmits₁.1, hadmits₁.2, hadmits₁.3, hadmits₁.4⟩
  exact antitone_of_best hinp₁.riskAversion_nonneg hlt hfirst hsecond

section TwoAssets

open Inputs

/-- The two assets for one who minds risk a quarter more. -/
noncomputable def cautiousTwo : Inputs ℝ := { twoAssets with riskAversion := 5 / 8 }

/-- Sell the first of the two assets and keep the second one. -/
noncomputable def sellFirst : Trade ℝ where
  delta := #[1, 0]
  lam := #[0, 0]

theorem ofSize_sellFirst : sellFirst.OfSize 2 := ⟨rfl, rfl⟩

theorem admits_sellFirst : cautiousTwo.Admits sellFirst := by
  have hassets : cautiousTwo.assets = 2 := rfl
  refine ⟨fun i hi => ?_, fun i hi => ?_, fun i hi => ?_, ?_⟩
  · have hi : i < 2 := hi
    interval_cases i <;> norm_num [sellFirst, Column.coord]
  · have hi : i < 2 := hi
    interval_cases i <;> norm_num [sellFirst, Column.coord]
  · have hi : i < 2 := hi
    interval_cases i <;> norm_num [cautiousTwo, twoAssets, sellFirst, Column.coord]
  · simp only [hassets, Finset.prod_range_succ, Finset.prod_range_zero]
    norm_num [cautiousTwo, twoAssets, sellFirst, Column.coord]

theorem validate_cautiousTwo : cautiousTwo.validate Settings.default = .ok 2 := by
  refine validate_of_isDiagonal rfl isDiagonal_twoAssets entry_twoAssets_nonneg Nat.two_pos
    order_twoAssets rfl rfl ?_ ?_ psdTol_default_nonneg
  · norm_num [cautiousTwo]
  · simp [cautiousTwo, twoAssets]

theorem proper_cautiousTwo (epsZero : ℝ) : cautiousTwo.Proper SymMatrix.sqrt epsZero :=
  proper_of_validate validate_cautiousTwo (isRootOf_twoAssets epsZero).semidefinite
    fun _ => isRootOf_twoAssets epsZero

theorem objective_cautiousTwo {z : Column ℝ} (hz : z.size = 2) :
    objective cautiousTwo.returns cautiousTwo.covariance cautiousTwo.riskAversion z =
      5 / 2 * z.coord 1 - 5 / 8 * (z.coord 0 ^ 2 + 2 * z.coord 1 ^ 2) :=
  congrArg₂ (· - 5 / 8 * ·) (expectedReturn_twoAssets hz) (quadForm_twoAssets hz)

/-- One of the second asset and nothing of the first one is then the best allocation of
all. -/
theorem isMinimiser_sellFirst (epsZero : ℝ) :
    (cautiousTwo.program SymMatrix.sqrt epsZero).conic.IsMinimiser
      (cautiousTwo.cheapest SymMatrix.sqrt epsZero sellFirst) := by
  refine isMinimiser_cheapest (proper_cautiousTwo epsZero) ofSize_sellFirst admits_sellFirst
    fun t ht _ => ?_
  have hallocation : cautiousTwo.allocation.size = 2 := rfl
  have hsize : (t.newAllocation cautiousTwo.allocation).size = 2 := ht.size_newAllocation rfl
  have hfirst : (sellFirst.newAllocation cautiousTwo.allocation).coord 0 = 0 := by
    rw [ofSize_sellFirst.coord_newAllocation hallocation Nat.two_pos]
    norm_num [cautiousTwo, twoAssets, sellFirst, Column.coord]
  have hsecond : (sellFirst.newAllocation cautiousTwo.allocation).coord 1 = 1 := by
    rw [ofSize_sellFirst.coord_newAllocation hallocation Nat.one_lt_two]
    norm_num [cautiousTwo, twoAssets, sellFirst, Column.coord]
  rw [objective_cautiousTwo hsize,
    objective_cautiousTwo (ofSize_sellFirst.size_newAllocation hallocation), hfirst, hsecond]
  nlinarith [sq_nonneg ((t.newAllocation cautiousTwo.allocation).coord 0),
    sq_nonneg ((t.newAllocation cautiousTwo.allocation).coord 1 - 1)]

open Classical in
/-- The solver that answers with a minimiser if there is one. -/
noncomputable def exactSolver : ConicSolver ℝ := fun _ p =>
  some (if h : ∃ x, p.IsMinimiser x then .ok h.choose else .error .infeasible)

theorem exactSolver_of_isMinimiser (set : SolverSettings ℝ) {p : ConicProgram ℝ} {x : Column ℝ}
    (h : p.IsMinimiser x) : ∃ y, exactSolver set p = some (.ok y) ∧ p.IsMinimiser y := by
  have hexists : ∃ y, p.IsMinimiser y := ⟨x, h⟩
  refine ⟨hexists.choose, ?_, hexists.choose_spec⟩
  rw [exactSolver, dif_pos hexists]

/-- The two assets, rebalanced with two risk aversions by one exact solver. -/
theorem rebalanceBy_antitone_riskAversion_twoAssets :
    twoAssets.riskAversion < 5 / 8 ∧ twoAssets.validate Settings.default = .ok 2 ∧
      cautiousTwo.validate Settings.default = .ok 2 ∧
      twoAssets.covariance.symmetrize.Semidefinite ∧
      ∃ report₁ report₂ d₁ d₂ v₁ v₂ e₁ e₂,
        rebalanceBy SymMatrix.sqrt Settings.default exactSolver twoAssets = some report₁ ∧
        rebalanceBy SymMatrix.sqrt Settings.default exactSolver cautiousTwo = some report₂ ∧
        report₁.result = .ok d₁ ∧ report₂.result = .ok d₂ ∧
        d₁.trade.variance? twoAssets.covariance twoAssets.allocation = some v₁ ∧
        d₂.trade.variance? twoAssets.covariance twoAssets.allocation = some v₂ ∧
        d₁.trade.expectedReturn? twoAssets.returns twoAssets.allocation = some e₁ ∧
        d₂.trade.expectedReturn? twoAssets.returns twoAssets.allocation = some e₂ ∧
        v₂ ≤ v₁ ∧ e₂ ≤ e₁ := by
  have hpsd := (isRootOf_twoAssets 0).semidefinite
  have hlt : twoAssets.riskAversion < 5 / 8 := by
    rw [riskAversion_twoAssets]
    norm_num
  refine ⟨hlt, validate_twoAssets, validate_cautiousTwo, hpsd, ?_⟩
  have hsolver : ∀ κ, κ = twoAssets.riskAversion ∨ κ = 5 / 8 → ∀ p,
      program? SymMatrix.sqrt { twoAssets with riskAversion := κ }
          (Settings.default : Settings ℝ).solver.epsZero = some p →
        ∃ x, exactSolver Settings.default.solver p.conic = some (.ok x) ∧
          p.conic.IsMinimiser x := by
    rintro κ (rfl | rfl) p hp
    · obtain rfl := Option.some.inj
        ((program?_eq_some _ _ (proper_twoAssets 0).toSized).symm.trans hp)
      exact exactSolver_of_isMinimiser _ (isMinimiser_swapTwo _)
    · obtain rfl := Option.some.inj
        ((program?_eq_some _ _ (proper_cautiousTwo 0).toSized).symm.trans hp)
      exact exactSolver_of_isMinimiser _ (isMinimiser_sellFirst _)
  obtain ⟨report₁, report₂, hreport₁, hreport₂, hok, hvalues⟩ :=
    @rebalanceBy_antitone_riskAversion twoAssets _ _ _ _ _ hlt validate_twoAssets
      validate_cautiousTwo SymMatrix.sqrt hpsd (fun _ => isRootOf_twoAssets _) exactSolver hsolver
  obtain ⟨⟨d₁, hd₁⟩, d₂, hd₂⟩ := hok (by norm_num [epsClip_default])
  obtain ⟨v₁, v₂, e₁, e₂, hvalue⟩ := hvalues d₁ d₂ hd₁ hd₂
  exact ⟨report₁, report₂, d₁, d₂, v₁, v₂, e₁, e₂, hreport₁, hreport₂, hd₁, hd₂, hvalue⟩

end TwoAssets

end Rebalancing
