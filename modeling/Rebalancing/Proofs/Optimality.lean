-- SUMMARY: With a solver that finds minimisers, a rebalance decides for an admissible trade that no other one improves on.
import Mathlib
import Rebalancing.Proofs.Acceptance

/-!
# Optimality

Points of the program are completed trades, and among the completions of a trade
the cheapest one costs the return that the trade gives up. So a point of least
cost begins with a best trade. That trade passes the test of the answer, and the
rebalance decides for it.
-/

open Finset

namespace Rebalancing

/-! ## Answers as completed trades -/

/-- A column of the length of the variables is a completed trade. -/
theorem Column.eq_stack {x : Column ℝ} {n m : ℕ} (hx : x.size = 2 * n + m + 1) :
    x = Trade.stack { delta := x.slice 0 n, lam := x.slice n n } (x.slice (2 * n) m)
      (x.coord (2 * n + m)) := by
  have ht : Trade.OfSize { delta := x.slice 0 n, lam := x.slice n n } n :=
    ⟨size_slice _ _ _, size_slice _ _ _⟩
  apply ext_coord (by rw [ht.size_stack, size_slice, hx])
  intro i hi
  -- The entry stands in `δ`, in `λ`, in `u`, or is the last one.
  rcases lt_or_ge i n with hdelta | hdelta
  · rw [ht.coord_stack_delta _ _ hdelta, coord_slice x 0 hdelta, Nat.zero_add]
  obtain ⟨j, rfl⟩ := Nat.exists_eq_add_of_le hdelta
  rcases lt_or_ge j n with hlam | hlam
  · rw [ht.coord_stack_lam _ _ hlam, coord_slice x n hlam]
  obtain ⟨k, rfl⟩ := Nat.exists_eq_add_of_le hlam
  rw [← Nat.add_assoc, ← two_mul, ht.coord_stack_rest, coord_append, size_slice]
  rcases lt_or_ge k m with hrest | hrest
  · rw [if_pos hrest, coord_slice x _ hrest]
  · have hlast : k = m := by omega
    rw [if_neg hrest.not_gt, hlast, Nat.sub_self]
    rfl

namespace Inputs

variable {inp : Inputs ℝ} {root : RootMethod ℝ} {epsZero : ℝ} (hinp : inp.Proper root epsZero)

omit hinp in
theorem exists_stack {x : Column ℝ} (hx : x.size = (inp.program root epsZero).cols) :
    ∃ t u bound, t.OfSize inp.assets ∧ u.size = (inp.program root epsZero).auxiliaries ∧
      x = Trade.stack t u bound :=
  ⟨_, _, _, ⟨Column.size_slice _ _ _, Column.size_slice _ _ _⟩, Column.size_slice _ _ _,
    Column.eq_stack hx⟩

/-- A trade that takes and adds nothing. -/
noncomputable def noTrade (inp : Inputs ℝ) : Trade ℝ where
  delta := Column.zeros inp.assets
  lam := Column.zeros inp.assets

theorem ofSize_noTrade (inp : Inputs ℝ) : inp.noTrade.OfSize inp.assets :=
  ⟨Column.size_zeros _, Column.size_zeros _⟩

include hinp

theorem admits_noTrade : inp.Admits inp.noTrade := by
  refine ⟨fun i _ => ?_, fun i _ => ?_, fun i hi => ?_, ?_⟩
  · simp [noTrade]
  · simp [noTrade]
  · simpa [noTrade] using (hinp.growth_pos i hi).le
  · simp [noTrade]

theorem newAllocation_noTrade : inp.noTrade.newAllocation inp.allocation = inp.allocation := by
  have hsize := (ofSize_noTrade inp).size_newAllocation hinp.size_allocation
  apply Column.ext_coord (hsize.trans hinp.size_allocation.symm)
  intro i hi
  rw [hsize] at hi
  rw [(ofSize_noTrade inp).coord_newAllocation hinp.size_allocation hi]
  simp [noTrade]

/-- The leading columns of a point of least cost are a best admissible trade. -/
theorem objective_le_of_isMinimiser {t t' : Trade ℝ} (ht : t.OfSize inp.assets)
    (ht' : t'.OfSize inp.assets) {u : Column ℝ} {bound : ℝ}
    (hu : u.size = (inp.program root epsZero).auxiliaries)
    (hmin : (inp.program root epsZero).conic.IsMinimiser (t.stack u bound))
    (hadmits : inp.Admits t') :
    objective inp.returns inp.covariance inp.riskAversion (t'.newAllocation inp.allocation) ≤
      objective inp.returns inp.covariance inp.riskAversion (t.newAllocation inp.allocation) := by
  have hlower := le_costAt_of_feasible hinp ht hu hmin.feasible
  have hupper := hmin.costAt_le _ (feasible_cheapest hinp ht' hadmits)
  rw [costAt_cheapest hinp ht'] at hupper
  linarith

/-- The cheapest completion of a best admissible trade is a point of least cost. -/
theorem isMinimiser_cheapest {t : Trade ℝ} (ht : t.OfSize inp.assets) (hadmits : inp.Admits t)
    (hbest : ∀ t' : Trade ℝ, t'.OfSize inp.assets → inp.Admits t' →
      objective inp.returns inp.covariance inp.riskAversion (t'.newAllocation inp.allocation) ≤
        objective inp.returns inp.covariance inp.riskAversion (t.newAllocation inp.allocation)) :
    (inp.program root epsZero).conic.IsMinimiser (inp.cheapest root epsZero t) := by
  refine ⟨feasible_cheapest hinp ht hadmits, fun y hy => ?_⟩
  obtain ⟨t', u, bound, ht', hu, rfl⟩ := exists_stack hy.1
  have hlower := le_costAt_of_feasible hinp ht' hu hy
  have hupper := hbest t' ht' (admits_of_feasible hinp ht' hu hy)
  rw [costAt_cheapest hinp ht]
  linarith

end Inputs

/-- With a solver that finds a minimiser of the program that it is handed, a
rebalance of validated inputs makes a decision. Its trade takes and adds nothing
below zero, the growth proxy after it is above zero and its geometric mean did not
fall, and no admissible trade has a greater objective. In particular it is no
worse than not to trade. -/
theorem rebalanceBy_optimal {inp : Inputs ℝ} {par : Settings ℝ} {n : ℕ}
    (hvalid : inp.validate par = .ok n) (heps : 0 ≤ par.epsClip) (root : RootMethod ℝ)
    (hpsd : inp.covariance.symmetrize.Semidefinite)
    (hroot : root.ExactAt inp.covariance.symmetrize par.solver.epsZero) (solver : ConicSolver ℝ)
    (hsolver : ∀ p, inp.program? root par.solver.epsZero = some p →
      ∃ x, solver par.solver p.conic = some (.ok x) ∧ p.conic.IsMinimiser x) :
    ∃ report d, rebalanceBy root par solver inp = some report ∧ report.result = .ok d ∧
      d.trade.OfSize n ∧ (∀ i < n, 0 ≤ d.trade.delta.coord i) ∧
      (∀ i < n, 0 ≤ d.trade.lam.coord i) ∧
      (∃ after, d.trade.newGrowth? inp.growth inp.coupling = some after ∧ (∀ e ∈ after, 0 < e) ∧
        inp.growth.geometricMean ≤ after.geometricMean) ∧
      (∀ t : Trade ℝ, t.OfSize n → inp.Admits t →
        ∃ v, objective? inp.returns inp.covariance inp.riskAversion
          (t.newAllocation inp.allocation) = some v ∧ v ≤ d.objective) ∧
      ∃ v, inp.zeroTradeObjective? = some v ∧ v ≤ d.objective := by
  obtain ⟨hsized, rfl⟩ := Inputs.sized_of_validate hvalid
  have hinp := Inputs.proper_of_validate hvalid hpsd hroot
  obtain ⟨x, hx, hmin⟩ := hsolver _ (Inputs.program?_eq_some root _ hsized)
  have hcols : x.size = (inp.program root par.solver.epsZero).cols := hmin.feasible.1
  -- The answer completes a trade, and as a point of the program it makes it admissible.
  obtain ⟨t, u, bound, ht, hu, rfl⟩ := Inputs.exists_stack hcols
  have hadmits : inp.Admits t := Inputs.admits_of_feasible hinp ht hu hmin.feasible
  have hbest : ∀ t' : Trade ℝ, t'.OfSize inp.assets → inp.Admits t' →
      objective inp.returns inp.covariance inp.riskAversion (t'.newAllocation inp.allocation) ≤
        (inp.decision t).objective :=
    fun t' ht' => Inputs.objective_le_of_isMinimiser hinp ht ht' hu hmin
  obtain ⟨log, haccept⟩ := accept_of_accepts hsized par.epsClip (fun _ _ => rfl)
    (hadmits.accepts hinp ht heps u bound)
  rw [hadmits.trade_stack ht] at haccept
  have hreport : rebalanceBy root par solver inp =
      conclude inp par (inp.program root par.solver.epsZero) (.ok (t.stack u bound)) := by
    rw [rebalanceBy_of_ok hvalid, hx]
    rfl
  rw [conclude_ok hcols, haccept] at hreport
  refine ⟨_, _, hreport, rfl, ht, hadmits.delta_nonneg, hadmits.lam_nonneg, ?_, ?_, ?_⟩
  · refine ⟨_, ht.newGrowth?_eq_some hsized.size_growth inp.coupling, ?_, hadmits.mean_le hinp ht⟩
    rw [Column.forall_mem_iff, ht.size_newGrowth hsized.size_growth]
    intro i hi
    rw [ht.coord_newGrowth hsized.size_growth inp.coupling hi]
    exact hadmits.newGrowth_pos hinp hi
  · intro t' ht' hadmits'
    exact ⟨_, hsized.objective?_eq_some (ht'.size_newAllocation hsized.size_allocation),
      hbest t' ht' hadmits'⟩
  · refine ⟨_, hsized.objective?_eq_some hsized.size_allocation, ?_⟩
    have hnone := hbest inp.noTrade (Inputs.ofSize_noTrade inp) (Inputs.admits_noTrade hinp)
    rwa [Inputs.newAllocation_noTrade hinp] at hnone

section TwoAssets

open Inputs

/-- A quarter more of the second asset, and nothing of the first one, is the best
allocation of all. -/
theorem isMinimiser_swapTwo (epsZero : ℝ) :
    (twoAssets.program SymMatrix.sqrt epsZero).conic.IsMinimiser
      (twoAssets.cheapest SymMatrix.sqrt epsZero swapTwo) := by
  refine isMinimiser_cheapest (proper_twoAssets epsZero) ofSize_swapTwo admits_swapTwo
    fun t ht _ => ?_
  have hsize : (t.newAllocation twoAssets.allocation).size = 2 := ht.size_newAllocation rfl
  rw [objective_swapTwo, objective_twoAssets hsize]
  nlinarith [sq_nonneg ((t.newAllocation twoAssets.allocation).coord 0),
    sq_nonneg ((t.newAllocation twoAssets.allocation).coord 1 - 5 / 4)]

/-- The solver that answers with the swap of the two assets. -/
theorem rebalanceBy_optimal_twoAssets :
    twoAssets.validate Settings.default = .ok 2 ∧
      twoAssets.covariance.symmetrize.Semidefinite ∧
      ∃ report d,
        rebalanceBy SymMatrix.sqrt Settings.default
          (fun set _ => some (.ok (twoAssets.cheapest SymMatrix.sqrt set.epsZero swapTwo)))
          twoAssets = some report ∧
        report.result = .ok d ∧ 25 / 16 ≤ d.objective := by
  have hroot : ∀ epsZero, (twoAssets.covariance.symmetrize.sqrt epsZero).IsRootOf _ :=
    isRootOf_twoAssets
  have hpsd := (hroot 0).semidefinite
  refine ⟨validate_twoAssets, hpsd, ?_⟩
  obtain ⟨report, d, hreport, hresult, -, -, -, -, hbest, -⟩ :=
    rebalanceBy_optimal validate_twoAssets (by norm_num [epsClip_default]) SymMatrix.sqrt hpsd
      (fun _ => hroot _)
      (fun set _ => some (.ok (twoAssets.cheapest SymMatrix.sqrt set.epsZero swapTwo)))
      fun p hp => by
        rw [program?_eq_some _ _ (proper_twoAssets 0).toSized] at hp
        obtain rfl := Option.some.inj hp
        exact ⟨_, rfl, isMinimiser_swapTwo _⟩
  obtain ⟨v, hv, hle⟩ := hbest swapTwo ofSize_swapTwo admits_swapTwo
  rw [(proper_twoAssets 0).objective?_eq_some (ofSize_swapTwo.size_newAllocation rfl),
    objective_swapTwo] at hv
  exact ⟨report, d, hreport, hresult, Option.some.inj hv ▸ hle⟩

end TwoAssets

end Rebalancing
