-- SUMMARY: Which answers of a solver become decisions, and how every other outcome of a rebalance is classified.
import Mathlib
import Rebalancing.Proofs.Answer
import Rebalancing.Proofs.TradeProgram.Exactness

/-!
# Acceptance

A rebalance calls its solver once, or not at all when its inputs are refused. It
takes an answer as a decision exactly when no entry of the two columns of the
trade is below zero by more than noise and the growth proxy after the clipped
trade passes. The other variables of the program do not count.

Nothing here depends on the arithmetic: the statements hold for any scalars.
-/

namespace Rebalancing

variable {F : Type} [Scalar F]

/-! ## What answers stand for -/

/-- The trade that an answer stands for: its two leading columns, with zero in place
of what is below zero. -/
def Column.trade (x : Column F) (n : ℕ) : Trade F where
  delta := (x.slice 0 n).map fun v => Scalar.max v 0
  lam := (x.slice n n).map fun v => Scalar.max v 0

/-- What an answer must satisfy to become a decision. -/
structure Inputs.Accepts (inp : Inputs F) (eps : F) (x : Column F) : Prop where
  delta_noise : (x.slice 0 inp.assets).WithinNoise eps
  lam_noise : (x.slice inp.assets inp.assets).WithinNoise eps
  newGrowth_pos : ∀ i < inp.assets,
    0 < inp.growth.coord i + inp.coupling * (x.trade inp.assets).delta.coord i -
      (x.trade inp.assets).lam.coord i
  mean_le : inp.growth.geometricMean - eps * Scalar.max 1 inp.growth.geometricMean ≤
    ((x.trade inp.assets).newGrowth inp.growth inp.coupling).geometricMean

theorem Column.ofSize_trade (x : Column F) (n : ℕ) : (x.trade n).OfSize n :=
  ⟨by simp [trade], by simp [trade]⟩

section Answers

variable {inp : Inputs F} (hinp : inp.Sized) (eps : F) {x : Column F}

include hinp

theorem growthLoss?_trade_eq_none_iff :
    growthLoss? eps inp.growth ((x.trade inp.assets).newGrowth inp.growth inp.coupling) = none ↔
      (∀ i < inp.assets,
        0 < inp.growth.coord i + inp.coupling * (x.trade inp.assets).delta.coord i -
          (x.trade inp.assets).lam.coord i) ∧
        inp.growth.geometricMean - eps * Scalar.max 1 inp.growth.geometricMean ≤
          ((x.trade inp.assets).newGrowth inp.growth inp.coupling).geometricMean := by
  have ht := x.ofSize_trade inp.assets
  have hsize := ht.size_newGrowth hinp.size_growth inp.coupling
  rw [growthLoss?_eq_none_iff, Column.forall_mem_iff, hsize]
  refine and_congr_left' (forall₂_congr fun i hi => ?_)
  rw [ht.coord_newGrowth hinp.size_growth inp.coupling hi]

variable (hnum : ∀ i < 2 * inp.assets, Scalar.isNaN (x.coord i) = false)

include hnum

omit hinp in
/-- On columns of numbers, clipping leads to the trade that the answer stands for. -/
theorem clippedTrade_eq_trade : x.clippedTrade inp.assets = x.trade inp.assets := by
  have hslice : ∀ start ≤ inp.assets, (x.slice start inp.assets).map clipped =
      (x.slice start inp.assets).map fun v => Scalar.max v 0 := by
    intro start hstart
    refine Array.map_congr_left ((Column.forall_mem_iff _ _).mpr ?_)
    rw [Column.size_slice]
    intro i hi
    have hnan := hnum (start + i) (by omega)
    rw [x.coord_slice start hi, clipped, Scalar.max, hnan]
    rfl
  rw [Column.clippedTrade, Column.trade, hslice 0 (Nat.zero_le _), hslice inp.assets le_rfl]

theorem passes_iff_accepts : inp.Passes eps x ↔ inp.Accepts eps x := by
  have htrade := clippedTrade_eq_trade hnum
  constructor
  · intro h
    have hloss := h.growthLoss_eq
    rw [htrade] at hloss
    obtain ⟨hpos, hmean⟩ := (growthLoss?_trade_eq_none_iff hinp eps).mp hloss
    exact ⟨h.delta_noise, h.lam_noise, hpos, hmean⟩
  · intro h
    refine ⟨h.delta_noise, h.lam_noise, ?_⟩
    rw [htrade]
    exact (growthLoss?_trade_eq_none_iff hinp eps).mpr ⟨h.newGrowth_pos, h.mean_le⟩

theorem accept_of_accepts (h : inp.Accepts eps x) :
    ∃ log, accept inp eps (x.slice 0 inp.assets) (x.slice inp.assets inp.assets) =
      some (.ok (inp.decision (x.trade inp.assets)), log) := by
  have haccept := accept_of_passes hinp eps ((passes_iff_accepts hinp eps hnum).mpr h)
  rw [clippedTrade_eq_trade hnum] at haccept
  exact haccept

theorem accept_of_not_accepts (h : ¬ inp.Accepts eps x) :
    ∃ log, accept inp eps (x.slice 0 inp.assets) (x.slice inp.assets inp.assets) =
      some (.error .invalidSolution, log) :=
  accept_of_not_passes hinp eps fun hpasses => h ((passes_iff_accepts hinp eps hnum).mp hpasses)

end Answers

/-! ## Decisions -/

/-- The decision is for the trade, and its objective is that of the new allocation:
the expected return less the risk aversion times the variance. -/
structure Decision.IsFor (d : Decision F) (inp : Inputs F) (t : Trade F) : Prop where
  trade_eq : d.trade = t
  status_eq : d.status = .optimal
  objective_eq : ∃ after, t.newAllocation? inp.allocation = some after ∧
    objective? inp.returns inp.covariance inp.riskAversion after = some d.objective
  objective_parts : ∃ expected variance,
    t.expectedReturn? inp.returns inp.allocation = some expected ∧
    t.variance? inp.covariance inp.allocation = some variance ∧
    d.objective = expected - inp.riskAversion * variance

section Values

variable {inp : Inputs F} (hinp : inp.Sized) {t : Trade F} (ht : t.OfSize inp.assets)

include hinp ht

theorem Inputs.Sized.expectedReturn?_eq_some :
    t.expectedReturn? inp.returns inp.allocation =
      some (expectedReturn inp.returns (t.newAllocation inp.allocation)) := by
  have hreturns : inp.returns.size = t.delta.size := ht.size_delta.symm
  simp [Trade.expectedReturn?, hreturns, ht.newAllocation?_eq_some hinp.size_allocation]

theorem Inputs.Sized.variance?_eq_some :
    t.variance? inp.covariance inp.allocation =
      some (inp.covariance.quadForm (t.newAllocation inp.allocation)) := by
  simp [Trade.variance?, ht.newAllocation?_eq_some hinp.size_allocation, Covariance.quadForm?,
    hinp.size_covariance, ht.size_newAllocation hinp.size_allocation]

theorem Inputs.Sized.isFor_decision : (inp.decision t).IsFor inp t := by
  have hafter := ht.newAllocation?_eq_some hinp.size_allocation
  have hsize := ht.size_newAllocation hinp.size_allocation
  refine ⟨rfl, rfl, ⟨_, hafter, hinp.objective?_eq_some hsize⟩, ?_⟩
  exact ⟨_, _, hinp.expectedReturn?_eq_some ht, hinp.variance?_eq_some ht, rfl⟩

end Values

/-! ## Admissible trades -/

namespace Column

variable {x : Column ℝ} (h : ∀ i < x.size, 0 ≤ x.coord i)

include h

theorem withinNoise_of_nonneg (eps : ℝ) : x.WithinNoise eps := by
  intro v hv hneg
  exact absurd hneg ((x.forall_mem_iff (0 ≤ ·)).mpr h v hv).not_gt

theorem map_max_of_nonneg : (x.map fun v => Scalar.max v 0) = x := by
  have hnonneg := (x.forall_mem_iff (0 ≤ ·)).mpr h
  apply Array.ext (Array.size_map)
  intro i _ hi
  rw [Array.getElem_map, Scalar.max_real]
  exact max_eq_left (hnonneg _ (Array.getElem_mem hi))

end Column

section Admissible

variable {inp : Inputs ℝ} {root : RootMethod ℝ} {epsZero : ℝ} (hinp : inp.Proper root epsZero)
  {t : Trade ℝ} (ht : t.OfSize inp.assets) (h : inp.Admits t)

include hinp h

/-- A product that does not fall leaves no room for a factor of zero. -/
theorem Inputs.Admits.newGrowth_pos {i : ℕ} (hi : i < inp.assets) :
    0 < inp.growth.coord i + inp.coupling * t.delta.coord i - t.lam.coord i := by
  refine (h.newGrowth_nonneg i hi).lt_of_ne fun hzero => ?_
  have hpos : 0 < ∏ i ∈ Finset.range inp.assets, inp.growth.coord i :=
    Finset.prod_pos fun i hi => hinp.growth_pos i (Finset.mem_range.mp hi)
  refine (hpos.trans_le h.prod_le).ne' ?_
  exact Finset.prod_eq_zero (Finset.mem_range.mpr hi) hzero.symm

include ht

theorem Inputs.Admits.mean_le :
    inp.growth.geometricMean ≤ (t.newGrowth inp.growth inp.coupling).geometricMean := by
  have hgrowth := hinp.size_growth
  have hnew := ht.size_newGrowth hgrowth inp.coupling
  have hcoord : ∀ i < inp.assets, (t.newGrowth inp.growth inp.coupling).coord i =
      inp.growth.coord i + inp.coupling * t.delta.coord i - t.lam.coord i :=
    fun i hi => ht.coord_newGrowth hgrowth inp.coupling hi
  refine (Column.geometricMean_le_iff (hgrowth ▸ hinp.assets_pos) (hnew.trans hgrowth.symm)
    (hgrowth ▸ hinp.growth_pos) fun i hi => ?_).mpr ?_
  · rw [hgrowth] at hi
    rw [hcoord i hi]
    exact h.newGrowth_pos hinp hi
  · rw [hgrowth]
    exact h.prod_le.trans_eq
      (Finset.prod_congr rfl fun i hi => (hcoord i (Finset.mem_range.mp hi)).symm)

omit hinp in
/-- An answer that begins with an admissible trade stands for that trade. -/
theorem Inputs.Admits.trade_stack (u : Column ℝ) (bound : ℝ) :
    (t.stack u bound).trade inp.assets = t := by
  rw [Column.trade, ht.slice_stack_delta, ht.slice_stack_lam,
    Column.map_max_of_nonneg (ht.size_delta ▸ h.delta_nonneg),
    Column.map_max_of_nonneg (ht.size_lam ▸ h.lam_nonneg)]

/-- Every admissible trade passes the test, whatever the tolerance. -/
theorem Inputs.Admits.accepts {eps : ℝ} (heps : 0 ≤ eps) (u : Column ℝ) (bound : ℝ) :
    inp.Accepts eps (t.stack u bound) := by
  have htrade := h.trade_stack ht u bound
  refine ⟨?_, ?_, ?_, ?_⟩
  · rw [ht.slice_stack_delta]
    exact Column.withinNoise_of_nonneg (ht.size_delta ▸ h.delta_nonneg) eps
  · rw [ht.slice_stack_lam]
    exact Column.withinNoise_of_nonneg (ht.size_lam ▸ h.lam_nonneg) eps
  · rw [htrade]
    exact fun i hi => h.newGrowth_pos hinp hi
  · have hshare : 0 ≤ eps * Scalar.max 1 inp.growth.geometricMean := by
      rw [Scalar.max_real]
      exact mul_nonneg heps (le_max_of_le_left zero_le_one)
    rw [htrade]
    linarith [h.mean_le hinp ht]

end Admissible

/-! ## Outcomes -/

/-- A rebalance reports refused inputs without a call of its solver, whatever the
solver is. Otherwise it calls the solver once and passes on how it failed. Of an
answer it makes the decision for the clipped trade, exactly when the answer
passes the test; it refuses any other answer. Nothing but the two leading
columns of the answer counts. All this holds for any method of taking roots, and
so for `rebalance`. -/
theorem rebalanceBy_outcome (root : RootMethod F) (par : Settings F) (solver : ConicSolver F)
    (inp : Inputs F) :
    (∀ e, inp.validate par = .error e →
      rebalanceBy root par solver inp =
        some { result := .error (.invalidInput e), calls := 0, log := [.refused e] }) ∧
    ∀ n, inp.validate par = .ok n →
      ∃ p, inp.program? root par.solver.epsZero = some p ∧
        (∀ e, solver par.solver p.conic = some (.error e) →
          ∃ report, rebalanceBy root par solver inp = some report ∧ report.calls = 1 ∧
            (e = .infeasible → report.result = .error .infeasible) ∧
            (e = .unbounded → report.result = .error .unbounded) ∧
            (e ≠ .infeasible → e ≠ .unbounded → report.result = .error (.solverFailure e))) ∧
        ∀ x, solver par.solver p.conic = some (.ok x) →
          x.size = 2 * n + (2 ^ GrowthTree.depth n - 1) + 1 →
          (∀ i < 2 * n, Scalar.isNaN (x.coord i) = false) →
          ∃ report, rebalanceBy root par solver inp = some report ∧ report.calls = 1 ∧
            ((∃ d, report.result = .ok d) ↔ inp.Accepts par.epsClip x) ∧
            (∀ d, report.result = .ok d → d.IsFor inp (x.trade n)) ∧
            (¬ inp.Accepts par.epsClip x → report.result = .error .invalidSolution) ∧
            ∀ (solver' : ConicSolver F) (y : Column F),
              solver' par.solver p.conic = some (.ok y) → y.size = x.size →
              (∀ i < 2 * n, y.coord i = x.coord i) →
              rebalanceBy root par solver' inp = some report := by
  refine ⟨fun e he => rebalanceBy_of_error he, fun n hn => ?_⟩
  obtain ⟨hinp, rfl⟩ := Inputs.sized_of_validate hn
  refine ⟨_, Inputs.program?_eq_some root _ hinp, fun e he => ?_, fun x hx hsize hnum => ?_⟩
  · rw [rebalanceBy_of_ok hn, he]
    refine ⟨_, rfl, rfl, ?_, ?_, fun hinfeasible hunbounded => ?_⟩
    · rintro rfl
      rfl
    · rintro rfl
      rfl
    · cases e with
      | infeasible => exact absurd rfl hinfeasible
      | unbounded => exact absurd rfl hunbounded
      | _ => rfl
  · have hcols := hsize.trans (Inputs.cols_program root par.solver.epsZero hinp).symm
    -- Both outcomes below are those of any answer with the same leading columns.
    have hsame : ∀ (solver' : ConicSolver F) (y : Column F),
        solver' par.solver (inp.program root par.solver.epsZero).conic = some (.ok y) →
        y.size = x.size → (∀ i < 2 * inp.assets, y.coord i = x.coord i) →
        rebalanceBy root par solver' inp = rebalanceBy root par solver inp := by
      intro solver' y hanswer hy h
      rw [rebalanceBy_of_ok hn, rebalanceBy_of_ok hn, hanswer, hx]
      exact conclude_congr hcols hy h
    have hreport : rebalanceBy root par solver inp =
        conclude inp par (inp.program root par.solver.epsZero) (.ok x) := by
      rw [rebalanceBy_of_ok hn, hx]
      rfl
    rw [conclude_ok hcols] at hreport
    by_cases haccepts : inp.Accepts par.epsClip x
    · obtain ⟨log, haccept⟩ := accept_of_accepts hinp par.epsClip hnum haccepts
      rw [haccept] at hreport
      refine ⟨_, hreport, rfl, iff_of_true ⟨_, rfl⟩ haccepts, ?_, absurd haccepts, ?_⟩
      · rintro d hd
        obtain rfl := Except.ok.inj hd
        exact hinp.isFor_decision (x.ofSize_trade _)
      · intro solver' y hanswer hy h
        exact (hsame solver' y hanswer hy h).trans hreport
    · obtain ⟨log, haccept⟩ := accept_of_not_accepts hinp par.epsClip hnum haccepts
      rw [haccept] at hreport
      refine ⟨_, hreport, rfl, iff_of_false ?_ haccepts, ?_, fun _ => rfl, ?_⟩
      · rintro ⟨d, hd⟩
        cases hd
      · intro d hd
        cases hd
      · intro solver' y hanswer hy h
        exact (hsame solver' y hanswer hy h).trans hreport

section TwoAssets

open Inputs

theorem epsClip_default : (Settings.default (F := ℝ)).epsClip = 1 / 10000 := by
  simp [Settings.default, Scalar.tenToMinus]

theorem proper_twoAssets (epsZero : ℝ) : twoAssets.Proper SymMatrix.sqrt epsZero :=
  proper_of_validate validate_twoAssets (isRootOf_twoAssets epsZero).semidefinite
    fun _ => isRootOf_twoAssets epsZero

theorem passes_swapTwo :
    twoAssets.Passes (Settings.default (F := ℝ)).epsClip (swapTwo.stack #[0] 0) := by
  have heps : 0 ≤ (Settings.default (F := ℝ)).epsClip := by norm_num [epsClip_default]
  exact (passes_iff_accepts (proper_twoAssets 0).toSized _ fun _ _ => rfl).mpr
    (admits_swapTwo.accepts (proper_twoAssets 0) ofSize_swapTwo heps _ _)

/-- Two assets through every outcome: inputs that are refused, a solver that fails, an
answer that is taken, and one that takes less than nothing from the first asset. -/
theorem rebalanceBy_outcome_twoAssets :
    (∀ solver,
      rebalanceBy SymMatrix.sqrt Settings.default solver { twoAssets with returns := #[] } =
        some { result := .error (.invalidInput .empty), calls := 0, log := [.refused .empty] }) ∧
    (∃ report, rebalanceBy SymMatrix.sqrt Settings.default (fun _ _ => some (.error .excessIter))
        twoAssets = some report ∧
      report.calls = 1 ∧ report.result = .error (.solverFailure .excessIter)) ∧
    (∃ report d, rebalanceBy SymMatrix.sqrt Settings.default
        (fun _ _ => some (.ok (swapTwo.stack #[0] 0))) twoAssets = some report ∧
      report.calls = 1 ∧ report.result = .ok d ∧ d.IsFor twoAssets swapTwo) ∧
    ∃ report, rebalanceBy SymMatrix.sqrt Settings.default
        (fun _ _ => some (.ok #[-1, 0, 0, 0, 0, 0])) twoAssets = some report ∧
      report.calls = 1 ∧ report.result = .error .invalidSolution := by
  refine ⟨fun solver => ?_, ?_, ?_, ?_⟩
  · exact (rebalanceBy_outcome _ _ solver _).1 .empty rfl
  · obtain ⟨p, -, hfails, -⟩ := (rebalanceBy_outcome SymMatrix.sqrt Settings.default
      (fun _ _ => some (.error .excessIter)) twoAssets).2 2 validate_twoAssets
    obtain ⟨report, hreport, hcalls, -, -, hresult⟩ := hfails .excessIter rfl
    exact ⟨report, hreport, hcalls, hresult (by decide) (by decide)⟩
  · obtain ⟨p, -, -, hanswers⟩ := (rebalanceBy_outcome SymMatrix.sqrt Settings.default
      (fun _ _ => some (.ok (swapTwo.stack #[0] 0))) twoAssets).2 2 validate_twoAssets
    have haccepts : twoAssets.Accepts Settings.default.epsClip (swapTwo.stack #[0] 0) :=
      admits_swapTwo.accepts (proper_twoAssets 0) ofSize_swapTwo (by norm_num [epsClip_default]) _ _
    have htrade : (swapTwo.stack #[0] 0).trade 2 = swapTwo :=
      admits_swapTwo.trade_stack ofSize_swapTwo _ _
    obtain ⟨report, hreport, hcalls, hiff, hdecision, -⟩ := hanswers _ rfl rfl fun _ _ => rfl
    obtain ⟨d, hd⟩ := hiff.mpr haccepts
    exact ⟨report, d, hreport, hcalls, hd, htrade ▸ hdecision d hd⟩
  · obtain ⟨p, -, -, hanswers⟩ := (rebalanceBy_outcome SymMatrix.sqrt Settings.default
      (fun _ _ => some (.ok #[-1, 0, 0, 0, 0, 0])) twoAssets).2 2 validate_twoAssets
    obtain ⟨report, hreport, hcalls, -, -, hrefused, -⟩ := hanswers _ rfl rfl fun _ _ => rfl
    refine ⟨report, hreport, hcalls, hrefused fun haccepts => ?_⟩
    have hassets : 0 < twoAssets.assets := Nat.two_pos
    have hnoise := haccepts.delta_noise
    rw [Column.WithinNoise, Column.forall_mem_iff, Column.size_slice] at hnoise
    have hfirst := hnoise 0 hassets
    rw [Column.coord_slice _ _ hassets, epsClip_default] at hfirst
    norm_num [Column.coord] at hfirst

end TwoAssets

end Rebalancing
