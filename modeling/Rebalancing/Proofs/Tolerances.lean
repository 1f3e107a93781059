-- SUMMARY: Settings that tolerate more, which refuse nothing that was taken before and change no decision.
import Mathlib
import Rebalancing.Proofs.EigenMethod
import Rebalancing.Proofs.RollingState

/-!
# Tolerances

Three tolerances decide what a rebalance takes: how far a covariance may be from
its transpose, how far its eigenvalues may be below zero, and how much noise an
answer may have. Each of them bounds from above what is refused, so a check that
finds no fault finds none with a greater tolerance. Clipping never moves an entry
by its tolerance, only to zero, so the trade, its value and what is reported stay.
-/

namespace Rebalancing

/-- The settings agree, but for tolerances that the second ones do not tighten. -/
structure Settings.LoosensTo (par par' : Settings ℝ) : Prop where
  solver_eq : par'.solver = par.solver
  symTol_le : par.symTol ≤ par'.symTol
  psdTol_le : par.psdTol ≤ par'.psdTol
  epsClip_le : par.epsClip ≤ par'.epsClip

/-! ## Validation -/

namespace Inputs

theorem isAsymmetric_of_le {tol tol' a b : ℝ} (htol : tol ≤ tol')
    (h : isAsymmetric tol' a b = true) : isAsymmetric tol a b = true := by
  simp only [isAsymmetric, decide_eq_true_eq, Scalar.max_real, Scalar.abs_real] at h ⊢
  have hscale : 0 ≤ max (max 1 |a|) |b| := le_max_of_le_right (abs_nonneg b)
  exact (mul_le_mul_of_nonneg_right htol hscale).trans_lt h

theorem symmetryFault?_eq_none_of_le {tol tol' : ℝ} (htol : tol ≤ tol') {n : ℕ}
    {s : Covariance ℝ} (h : symmetryFault? tol n s = none) : symmetryFault? tol' n s = none := by
  cases s with
  | packed m => rfl
  | full m =>
    simp only [symmetryFault?, List.findSome?_eq_none_iff, Option.map_eq_none_iff,
      List.find?_eq_none] at h ⊢
    exact fun c hc r hr hdiffer => h c hc r hr (isAsymmetric_of_le htol hdiffer)

section Methods

variable {eig : EigenMethod ℝ}

theorem definiteFaultBy?_eq_none_of_le {tol tol' eps : ℝ} (htol : tol ≤ tol') {s : Covariance ℝ}
    (h : definiteFaultBy? eig tol eps s = none) : definiteFaultBy? eig tol' eps s = none := by
  simp only [definiteFaultBy?, Scalar.max_real, ite_eq_right_iff, reduceCtorEq, imp_false,
    not_lt] at h ⊢
  have hscale : 0 ≤ max 1 (eig s.symmetrize eps).valueRange.maxAbs :=
    le_max_of_le_left zero_le_one
  exact (mul_le_mul_of_nonneg_right (neg_le_neg htol) hscale).trans h

/-- Inputs that pass validation pass it with greater tolerances, by whatever method
their spectrum is found. -/
theorem validateBy_of_loosensTo {inp : Inputs ℝ} {par par' : Settings ℝ} (h : par.LoosensTo par')
    {n : ℕ} (hn : inp.validateBy eig par = .ok n) : inp.validateBy eig par' = .ok n := by
  obtain ⟨rfl, hfault⟩ := validateBy_eq_ok_iff.mp hn
  simp only [faultBy?, Option.orElse_eq_none] at hfault
  obtain ⟨hplain, hsymmetry, hdefinite⟩ := hfault
  refine validateBy_eq_ok_iff.mpr ⟨rfl, ?_⟩
  simp only [faultBy?, Option.orElse_eq_none, h.solver_eq]
  exact ⟨hplain, symmetryFault?_eq_none_of_le h.symTol_le hsymmetry,
    definiteFaultBy?_eq_none_of_le h.psdTol_le hdefinite⟩

end Methods

theorem validate_of_loosensTo {inp : Inputs ℝ} {par par' : Settings ℝ} (h : par.LoosensTo par')
    {n : ℕ} (hn : inp.validate par = .ok n) : inp.validate par' = .ok n := by
  rw [← validateBy_ofMatrix] at hn ⊢
  exact validateBy_of_loosensTo h hn

end Inputs

/-! ## Testing an answer -/

section Testing

variable {eps eps' : ℝ} (heps : eps ≤ eps')

include heps

theorem Column.WithinNoise.of_le {x : Column ℝ} (h : x.WithinNoise eps) : x.WithinNoise eps' :=
  fun v hv hneg hlt => h v hv hneg (heps.trans_lt hlt)

theorem clipFrom_eq_of_le (side : Side) (i : ℕ) {vs : List ℝ} (h : ∀ v ∈ vs, v < 0 → ¬ eps < -v) :
    clipFrom side eps' i vs = clipFrom side eps i vs := by
  induction vs generalizing i with
  | nil => rfl
  | cons v vs ih =>
    have hrest := ih (i + 1) fun w hw => h w (List.mem_cons_of_mem _ hw)
    rw [clipFrom, clipFrom, hrest]
    by_cases hv : v < 0
    · have hnoise : ¬ eps < -v := h v (List.mem_cons_self ..) hv
      have hnoise' : ¬ eps' < -v := fun hlt => hnoise (heps.trans_lt hlt)
      rw [if_pos hv, if_pos hv, if_neg hnoise, if_neg hnoise']
    · rw [if_neg hv, if_neg hv]

/-- On a column within noise the size of the noise allowed does not show. -/
theorem clip_eq_of_le (side : Side) {x : Column ℝ} (h : x.WithinNoise eps) :
    clip side eps' x = clip side eps x := by
  rw [clip, clip, clipFrom_eq_of_le heps side 0 fun v hv => h v (Array.mem_toList_iff.mp hv)]

theorem growthLoss?_eq_none_of_le {before after : Column ℝ}
    (h : growthLoss? eps before after = none) : growthLoss? eps' before after = none := by
  rw [growthLoss?_eq_none_iff] at h ⊢
  refine ⟨h.1, le_trans ?_ h.2⟩
  have hscale : 0 ≤ Scalar.max 1 before.geometricMean := by
    rw [Scalar.max_real]
    exact le_max_of_le_left zero_le_one
  exact sub_le_sub_left (mul_le_mul_of_nonneg_right heps hscale) _

variable {inp : Inputs ℝ} {x : Column ℝ} (h : inp.Passes eps x)

include h

theorem Inputs.Passes.of_le : inp.Passes eps' x where
  delta_noise := h.delta_noise.of_le heps
  lam_noise := h.lam_noise.of_le heps
  growthLoss_eq := growthLoss?_eq_none_of_le heps h.growthLoss_eq

/-- An answer that passes the test leads to the same decision and the same report of it
with greater tolerances. -/
theorem accept_eq_of_le (hinp : inp.Sized) :
    accept inp eps' (x.slice 0 inp.assets) (x.slice inp.assets inp.assets) =
      accept inp eps (x.slice 0 inp.assets) (x.slice inp.assets inp.assets) := by
  have happraise : appraise inp eps' (x.clippedTrade inp.assets) =
      appraise inp eps (x.clippedTrade inp.assets) := by
    have ht := x.ofSize_clippedTrade inp.assets
    rw [appraise, appraise, ht.newGrowth?_eq_some hinp.size_growth]
    simp only [Option.bind_eq_bind, Option.bind_some, h.growthLoss_eq, (h.of_le heps).growthLoss_eq]
  obtain ⟨log, hdelta⟩ := clip_eq_map .delta eps h.delta_noise
  obtain ⟨log', hlam⟩ := clip_eq_map .lam eps h.lam_noise
  rw [Column.clippedTrade] at happraise
  simp only [accept, clip_eq_of_le heps _ h.delta_noise, clip_eq_of_le heps _ h.lam_noise, hdelta,
    hlam, happraise]

end Testing

/-! ## Rebalancing -/

/-- Settings that tolerate more take all inputs that were taken before, and lead from
every decision to the same report: the same trade and objective, and the same events.
No sign of a tolerance is assumed. -/
theorem rebalanceBy_of_loosensTo {par par' : Settings ℝ} (h : par.LoosensTo par')
    (inp : Inputs ℝ) :
    (∀ n, inp.validate par = .ok n → inp.validate par' = .ok n) ∧
    ∀ (root : RootMethod ℝ) (solver : ConicSolver ℝ) (report : Report ℝ) (d : Decision ℝ),
      rebalanceBy root par solver inp = some report → report.result = .ok d →
        rebalanceBy root par' solver inp = some report := by
  refine ⟨fun n hn => Inputs.validate_of_loosensTo h hn, fun root solver report d hreport hd => ?_⟩
  obtain ⟨x, hvalid, hanswer, hsize, hpasses, -⟩ := exists_answer_of_ok hreport hd
  have hinp := (Inputs.sized_of_validate hvalid).1
  rw [rebalanceBy_of_ok hvalid, hanswer, Option.bind_some, conclude_ok hsize] at hreport
  rw [rebalanceBy_of_ok (Inputs.validate_of_loosensTo h hvalid), h.solver_eq, hanswer,
    Option.bind_some, conclude_ok hsize, accept_eq_of_le h.epsClip_le hpasses hinp]
  exact hreport

section TwoAssets

open Inputs

/-- Settings that tolerate more than the default ones throughout. -/
noncomputable def tolerant : Settings ℝ where
  solver := Settings.default.solver
  symTol := 1
  psdTol := 1
  epsClip := 1

theorem default_loosensTo_tolerant : (Settings.default (F := ℝ)).LoosensTo tolerant := by
  refine ⟨rfl, ?_, ?_, ?_⟩ <;> norm_num [Settings.default, tolerant, Scalar.tenToMinus]

/-- Sell the first of the two assets for the second one, but take a little less than nothing
from the second one. -/
noncomputable def noisySwapTwo : Trade ℝ :=
  { swapTwo with delta := #[1, -Scalar.tenToMinus 5] }

theorem ofSize_noisySwapTwo : noisySwapTwo.OfSize 2 := ⟨rfl, rfl⟩

noncomputable def noisyTwo : Column ℝ := noisySwapTwo.stack #[0] 0

theorem clippedTrade_noisyTwo : noisyTwo.clippedTrade 2 = swapTwo := by
  have hdelta : noisySwapTwo.delta.map clipped = swapTwo.delta := by
    norm_num [noisySwapTwo, swapTwo, clipped, Scalar.tenToMinus]
  have hlam : noisySwapTwo.lam.map clipped = swapTwo.lam := by
    norm_num [noisySwapTwo, swapTwo, clipped]
  rw [Column.clippedTrade, noisyTwo, ofSize_noisySwapTwo.slice_stack_delta,
    ofSize_noisySwapTwo.slice_stack_lam, hdelta, hlam]

theorem passes_noisyTwo : twoAssets.Passes (Settings.default (F := ℝ)).epsClip noisyTwo := by
  have hassets : twoAssets.assets = 2 := rfl
  have hloss := RollingState.passes_answerTwo.growthLoss_eq
  rw [RollingState.clippedTrade_answerTwo, ← clippedTrade_noisyTwo] at hloss
  refine ⟨?_, ?_, hloss⟩
  · rw [hassets, noisyTwo, ofSize_noisySwapTwo.slice_stack_delta, Column.WithinNoise,
      epsClip_default]
    norm_num [noisySwapTwo, Scalar.tenToMinus]
  · have hlam : ∀ i < swapTwo.lam.size, 0 ≤ swapTwo.lam.coord i := admits_swapTwo.lam_nonneg
    rw [hassets, noisyTwo, ofSize_noisySwapTwo.slice_stack_lam]
    exact Column.withinNoise_of_nonneg hlam _

/-- Noise that the default settings clip is clipped alike by settings that allow more. -/
theorem rebalanceBy_tolerant_twoAssets :
    (Settings.default (F := ℝ)).LoosensTo tolerant ∧ twoAssets.validate tolerant = .ok 2 ∧
      ∃ report d,
        rebalance Settings.default (fun _ _ => some (.ok noisyTwo)) twoAssets = some report ∧
        report.result = .ok d ∧ d.trade = swapTwo ∧
        rebalance tolerant (fun _ _ => some (.ok noisyTwo)) twoAssets = some report := by
  obtain ⟨hvalidate, hsame⟩ := rebalanceBy_of_loosensTo default_loosensTo_tolerant twoAssets
  let solver : ConicSolver ℝ := fun _ _ => some (.ok noisyTwo)
  have hanswer : solver (Settings.default (F := ℝ)).solver
      (twoAssets.program SymMatrix.sqrt (Settings.default (F := ℝ)).solver.epsZero).conic =
        some (.ok noisyTwo) := rfl
  obtain ⟨report, hreport, hdecision, -⟩ := rebalanceBy_of_answer validate_twoAssets hanswer rfl
  have hresult := hdecision passes_noisyTwo
  exact ⟨default_loosensTo_tolerant, hvalidate 2 validate_twoAssets, report, _, hreport, hresult,
    clippedTrade_noisyTwo, hsame _ _ report _ hreport hresult⟩

end TwoAssets

end Rebalancing
