-- SUMMARY: What becomes of answers with values that are not finite: which ones a rebalance refuses, and the one that it lets through.
import Mathlib
import Rebalancing.Proofs.RollingState
import Rebalancing.Proofs.SpecialScalar

/-!
# Answers that are not finite

An undefined entry compares with nothing, so clipping leaves it; it is refused
because it makes the growth proxy of its asset undefined. An infinite entry is
refused where it draws the growth proxy below zero or makes it undefined. One is
let through: an infinite sale, where growth couples to it by more than nothing.
-/

namespace Rebalancing

variable {F : Type} [Scalar F] [SpecialValues F]

open SpecialValues

/-! ## Infinities -/

theorem isNaN_infinity : Scalar.isNaN (Scalar.infinity : F) = false := by
  by_contra hnan
  exact not_lt_of_isNaN (.inr (Bool.not_eq_false _ ▸ hnan)) (lt_infinity isFinite_zero)

/-! ## Clipped entries -/

section Clipped

variable {v : F}

theorem le_refl_zero : (0 : F) ≤ 0 :=
  le_of_not_lt (isNaN_of_isFinite isFinite_zero) (isNaN_of_isFinite isFinite_zero)
    fun h => lt_asymm h h

theorem clipped_ne_neg_infinity : clipped v ≠ -Scalar.infinity := by
  have hbelow : (-Scalar.infinity : F) < 0 := neg_infinity_lt isFinite_zero
  intro h
  by_cases hv : v < 0
  · rw [clipped_of_lt hv] at h
    rw [← h] at hbelow
    exact lt_asymm hbelow hbelow
  · rw [clipped_of_not_lt hv] at h
    exact hv (h ▸ hbelow)

theorem clipped_nonneg (h : Scalar.isNaN (clipped v) = false) : 0 ≤ clipped v := by
  by_cases hv : v < 0
  · rw [clipped_of_lt hv]
    exact le_refl_zero
  · rw [clipped_of_not_lt hv] at h ⊢
    exact le_of_not_lt h (isNaN_of_isFinite isFinite_zero) hv

/-- An entry that is not finite and not far below zero stays as it is. -/
theorem clipped_of_isFinite_eq_false {eps : F} (heps : Scalar.isFinite eps = true)
    (hv : Scalar.isFinite v = false) (hnoise : v < 0 → ¬ eps < -v) : clipped v = v := by
  refine clipped_of_not_lt fun hneg => ?_
  obtain hfinite | hnan | rfl | rfl := kinds v
  · cases hfinite.symm.trans hv
  · exact not_lt_of_isNaN (.inl hnan) hneg
  · exact lt_asymm hneg (lt_infinity isFinite_zero)
  · refine hnoise hneg ?_
    rw [neg_neg_infinity]
    exact lt_infinity heps

end Clipped

/-! ## Growth of one asset -/

section Growth

theorem not_pos_neg_infinity : ¬ (0 : F) < -Scalar.infinity :=
  lt_asymm (neg_infinity_lt isFinite_zero)

theorem not_pos_of_isNaN {a : F} (h : Scalar.isNaN a = true) : ¬ 0 < a :=
  not_lt_of_isNaN (.inr h)

/-- Whatever there is, less infinity, is not above zero. -/
theorem not_pos_sub_infinity (a : F) : ¬ 0 < a - Scalar.infinity := by
  obtain hfinite | hnan | rfl | rfl := kinds a
  · rw [sub_infinity hfinite]
    exact not_pos_neg_infinity
  · exact not_pos_of_isNaN (isNaN_sub (.inl hnan))
  · exact not_pos_of_isNaN infinity_sub_infinity
  · rw [neg_infinity_sub_infinity]
    exact not_pos_neg_infinity

variable {r γ d l : F}

/-- What is added to an asset whose growth proxy is above zero after the trade is
finite. -/
theorem isFinite_lam (hl : l ≠ -Scalar.infinity) (h : 0 < r + γ * d - l) :
    Scalar.isFinite l = true := by
  obtain hfinite | hnan | rfl | rfl := kinds l
  · exact hfinite
  · exact absurd h (not_pos_of_isNaN (isNaN_sub (.inr hnan)))
  · exact absurd h (not_pos_sub_infinity _)
  · exact absurd rfl hl

/-- What is taken from it is finite too, or else infinite and coupled by more than
nothing. -/
theorem isFinite_delta_or (hr : Scalar.isFinite r = true) (hγ : Scalar.isFinite γ = true)
    (hd : d ≠ -Scalar.infinity) (hl : l ≠ -Scalar.infinity) (h : 0 < r + γ * d - l) :
    Scalar.isFinite d = true ∨ d = Scalar.infinity ∧ 0 < γ := by
  have hlam := isFinite_lam hl h
  have hundefined : Scalar.isNaN (γ * d) = false := by
    by_contra hnan
    have hgrowth : Scalar.isNaN (r + γ * d) = true :=
      isNaN_add (.inr (Bool.not_eq_false _ ▸ hnan))
    exact not_pos_of_isNaN (isNaN_sub (.inl hgrowth)) h
  obtain hfinite | hnan | rfl | rfl := kinds d
  · exact .inl hfinite
  · cases (isNaN_mul (.inr hnan)).symm.trans hundefined
  · refine .inr ⟨rfl, ?_⟩
    by_contra hpos
    by_cases hneg : γ < 0
    · rw [mul_infinity_of_neg hγ hneg, add_neg_infinity hr, neg_infinity_sub hlam] at h
      exact not_pos_neg_infinity h
    · cases (isNaN_mul_infinity hγ hneg hpos).symm.trans hundefined
  · exact absurd rfl hd

end Growth

/-! ## Answers that pass -/

/-- Both columns of the trade have entries that are finite and not below zero, but for
infinite sales where the coupling is above zero. -/
structure Trade.Regular (t : Trade F) (n : ℕ) (coupling : F) : Prop where
  ofSize : t.OfSize n
  lam_finite : ∀ i < n, Scalar.isFinite (t.lam.coord i) = true
  lam_nonneg : ∀ i < n, 0 ≤ t.lam.coord i
  delta_finite_or : ∀ i < n, Scalar.isFinite (t.delta.coord i) = true ∨
    t.delta.coord i = Scalar.infinity ∧ 0 < coupling
  delta_nonneg : ∀ i < n, 0 ≤ t.delta.coord i

section Passing

variable {inp : Inputs F} {par : Settings F} {n : ℕ} (hn : inp.validate par = .ok n) {eps : F}
  {x : Column F} (h : inp.Passes eps x)

include hn h

omit [SpecialValues F] in
theorem newGrowth_pos_of_passes {i : ℕ} (hi : i < n) :
    0 < inp.growth.coord i + inp.coupling * clipped (x.coord i) - clipped (x.coord (n + i)) := by
  obtain ⟨hsized, rfl⟩ := Inputs.sized_of_validate hn
  have ht := x.ofSize_clippedTrade inp.assets
  have hpos := ((growthLoss?_eq_none_iff _ _ _).mp h.growthLoss_eq).1
  rw [Column.forall_mem_iff, ht.size_newGrowth hsized.size_growth] at hpos
  have hi' := hpos i hi
  rw [ht.coord_newGrowth hsized.size_growth _ hi, x.coord_clippedTrade_delta _ hi,
    x.coord_clippedTrade_lam _ hi] at hi'
  exact hi'

theorem regular_of_passes : (x.clippedTrade n).Regular n inp.coupling := by
  obtain ⟨hcoupling, hgrowth⟩ :=
    Inputs.isFinite_of_fault?_eq_none (Inputs.validate_eq_ok_iff.mp hn).2
  obtain ⟨hsized, rfl⟩ := Inputs.sized_of_validate hn
  rw [Column.forall_mem_iff, hsized.size_growth] at hgrowth
  have hlam : ∀ i < inp.assets, Scalar.isFinite (clipped (x.coord (inp.assets + i))) = true :=
    fun i hi => isFinite_lam clipped_ne_neg_infinity (newGrowth_pos_of_passes hn h hi)
  have hdelta : ∀ i < inp.assets, Scalar.isFinite (clipped (x.coord i)) = true ∨
      clipped (x.coord i) = Scalar.infinity ∧ 0 < inp.coupling :=
    fun i hi => isFinite_delta_or (hgrowth i hi) hcoupling clipped_ne_neg_infinity
      clipped_ne_neg_infinity (newGrowth_pos_of_passes hn h hi)
  refine ⟨x.ofSize_clippedTrade _, fun i hi => ?_, fun i hi => ?_, fun i hi => ?_, fun i hi => ?_⟩
  · rw [x.coord_clippedTrade_lam _ hi]
    exact hlam i hi
  · rw [x.coord_clippedTrade_lam _ hi]
    exact clipped_nonneg (isNaN_of_isFinite (hlam i hi))
  · rw [x.coord_clippedTrade_delta _ hi]
    exact hdelta i hi
  · rw [x.coord_clippedTrade_delta _ hi]
    rcases hdelta i hi with hfinite | ⟨hinfinite, -⟩
    · exact clipped_nonneg (isNaN_of_isFinite hfinite)
    · refine clipped_nonneg ?_
      rw [hinfinite]
      exact isNaN_infinity

omit [SpecialValues F] in
/-- No entry of the two columns is below zero by more than noise. -/
theorem noise_of_passes {i : ℕ} (hi : i < 2 * n) (hneg : x.coord i < 0) : ¬ eps < -x.coord i := by
  obtain ⟨-, rfl⟩ := Inputs.sized_of_validate hn
  have hcolumn : ∀ start, (x.slice start inp.assets).WithinNoise eps → ∀ j < inp.assets,
      x.coord (start + j) < 0 → ¬ eps < -x.coord (start + j) := by
    intro start hnoise j hj
    rw [Column.WithinNoise, Column.forall_mem_iff, Column.size_slice] at hnoise
    rw [← x.coord_slice start hj]
    exact hnoise j hj
  by_cases hlt : i < inp.assets
  · have hdelta := hcolumn 0 h.delta_noise i hlt
    rw [Nat.zero_add] at hdelta
    exact hdelta hneg
  · have hlam := hcolumn inp.assets h.lam_noise (i - inp.assets) (by omega)
    rw [Nat.add_sub_cancel' (not_lt.mp hlt)] at hlam
    exact hlam hneg

/-- The only entry that passes without being finite is an infinite sale that is coupled
to growth. -/
theorem infinite_sale_of_passes (heps : Scalar.isFinite eps = true) {i : ℕ} (hi : i < 2 * n)
    (hfinite : Scalar.isFinite (x.coord i) = false) :
    i < n ∧ x.coord i = Scalar.infinity ∧ 0 < inp.coupling := by
  have hregular := regular_of_passes hn h
  have hsame : clipped (x.coord i) = x.coord i :=
    clipped_of_isFinite_eq_false heps hfinite (noise_of_passes hn h hi)
  by_cases hlt : i < n
  · have hdelta := hregular.delta_finite_or i hlt
    rw [x.coord_clippedTrade_delta _ hlt, hsame, hfinite] at hdelta
    exact ⟨hlt, hdelta.resolve_left Bool.false_ne_true⟩
  · have hlam := hregular.lam_finite (i - n) (by omega)
    rw [x.coord_clippedTrade_lam _ (by omega), Nat.add_sub_cancel' (not_lt.mp hlt), hsame,
      hfinite] at hlam
    cases hlam

end Passing

/-! ## Outcomes -/

/-- On validated inputs, whatever an answer of the right length holds: a decision has
entries that are finite and not below zero, but for infinite sales where the
coupling is above zero. Any other entry of the two columns that is not finite leads
to a refusal, and a rolling state stays as it is. -/
theorem rebalance_regular {inp : Inputs F} {par : Settings F} {n : ℕ}
    (hn : inp.validate par = .ok n) (heps : Scalar.isFinite par.epsClip = true) :
    ∃ p, inp.program? SymMatrix.sqrt par.solver.epsZero = some p ∧
      ∀ (solver : ConicSolver F) (x : Column F), solver par.solver p.conic = some (.ok x) →
        x.size = 2 * n + (2 ^ GrowthTree.depth n - 1) + 1 →
        ∃ report, rebalance par solver inp = some report ∧
          (∀ d, report.result = .ok d → d.trade.Regular n inp.coupling) ∧
          ∀ i < 2 * n, Scalar.isFinite (x.coord i) = false →
            ¬ (i < n ∧ x.coord i = Scalar.infinity ∧ 0 < inp.coupling) →
            report.result = .error .invalidSolution ∧
              ∀ (s : RollingState F) (o : Outlook F), s.inputs o = inp →
                s.step par solver o = (some report, s) := by
  obtain ⟨hsized, rfl⟩ := Inputs.sized_of_validate hn
  refine ⟨_, Inputs.program?_eq_some _ _ hsized, fun solver x hx hsize => ?_⟩
  have hcols := hsize.trans (Inputs.cols_program SymMatrix.sqrt par.solver.epsZero hsized).symm
  obtain ⟨report, hreport, hpasses, hrefused⟩ := rebalanceBy_of_answer hn hx hcols
  refine ⟨report, hreport, fun d hd => ?_, fun i hi hfinite hother => ?_⟩
  · have hpass : inp.Passes par.epsClip x := by
      by_contra hnot
      cases hd.symm.trans (hrefused hnot)
    obtain rfl := Except.ok.inj (hd.symm.trans (hpasses hpass))
    exact regular_of_passes hn hpass
  · have hresult := hrefused fun hpass => hother (infinite_sale_of_passes hn hpass heps hi hfinite)
    refine ⟨hresult, fun s o hinputs => ?_⟩
    subst hinputs
    obtain ⟨hstep, -⟩ | ⟨report', d, hreport', hresult', -, -⟩ := s.step_cases par solver o
    · rw [hstep, rebalance, hreport]
    · cases hreport.symm.trans hreport'
      cases hresult.symm.trans hresult'

/-! ## One asset -/

omit [SpecialValues F] in
theorem Column.geometricMean_singleton (e : F) :
    Column.geometricMean #[e] = Scalar.exp ((0 + Scalar.log e) / Scalar.ofCount 1) := by
  simp [geometricMean, sumTo, sumFrom_succ, coord]

section OneAsset

open Extended

/-- One asset of which a sale couples to growth in full. -/
noncomputable def oneAsset : Inputs Extended where
  returns := #[1]
  covariance := .packed (.ofFn 1 fun _ _ => 1)
  riskAversion := 1
  coupling := 1
  allocation := #[1]
  growth := #[1]

theorem values_oneAsset (eps : Extended) :
    (Spectrum.ofMatrix oneAsset.covariance.symmetrize eps).values = #[1] := by
  -- A matrix of one row has no cell above its diagonal.
  have hstart : Spectrum.ofMatrix oneAsset.covariance.symmetrize eps =
      Spectrum.start oneAsset.covariance.symmetrize := by
    refine Spectrum.ofMatrix_of_not_isDue fun i j hij hj => ?_
    have hj : j < 1 := hj
    omega
  rw [hstart]
  rfl

theorem definiteFault_oneAsset : Inputs.definiteFault? (Settings.default (F := Extended)).psdTol
    (Settings.default (F := Extended)).solver.epsZero oneAsset.covariance = none := by
  have hrange : oneAsset.covariance.symmetrize.spectralRange
      (Settings.default (F := Extended)).solver.epsZero = { least := 1, maxAbs := 1 } := by
    rw [SymMatrix.spectralRange, values_oneAsset]
    simp [Column.least?, Column.maxAbs, Scalar.max, Scalar.isNaN, Extended.isNaN, Scalar.abs,
      Extended.abs]
  rw [Inputs.definiteFault?, hrange]
  simp [Scalar.max, Settings.default, Scalar.tenToMinus]
  norm_num

theorem validate_oneAsset : oneAsset.validate Settings.default = .ok 1 := by
  refine Inputs.validate_eq_ok_iff.mpr ⟨rfl, ?_⟩
  have hcells : oneAsset.covariance.cells = #[1] := rfl
  have hfinite : ∀ datum, Inputs.finiteFault? datum (#[1] : Column Extended) = none := by
    intro datum
    simp [Inputs.finiteFault?, Scalar.isFinite, isFinite]
  rw [Inputs.fault?, definiteFault_oneAsset, hcells]
  simp [oneAsset, Inputs.assets, Covariance.size, Inputs.sizeFault?, Inputs.finiteFault?,
    Inputs.growthFault?, Inputs.symmetryFault?, Scalar.isFinite, isFinite]

/-- An answer that sells without end. -/
def endlessSale : Column Extended := #[above, real 0, real 0]

/-- The trade of that answer. -/
def endlessTrade : Trade Extended where
  delta := #[above]
  lam := #[real 0]

theorem clippedTrade_endlessSale : endlessSale.clippedTrade oneAsset.assets = endlessTrade := by
  have hdelta : endlessSale.slice 0 oneAsset.assets = #[above] := rfl
  have hlam : endlessSale.slice oneAsset.assets oneAsset.assets = #[real 0] := rfl
  have habove : clipped above = above := clipped_of_not_lt id
  have hzero : clipped (real 0) = real 0 := clipped_of_not_lt (lt_irrefl (0 : ℝ))
  rw [Column.clippedTrade, hdelta, hlam, endlessTrade]
  simp only [List.map_toArray, List.map_cons, List.map_nil, habove, hzero]

theorem newGrowth_endlessTrade :
    endlessTrade.newGrowth oneAsset.growth oneAsset.coupling = #[above] := by
  have hproduct : (1 : Extended) * above = above := by
    rw [one_def, real_mul_above, sign_one]
    rfl
  have hgrowth : (1 : Extended) + 1 * above - 0 = above := by
    rw [hproduct]
    rfl
  exact congrArg (fun e : Extended => #[e]) hgrowth

theorem geometricMean_oneAsset : oneAsset.growth.geometricMean = 1 := by
  have hlog : Scalar.log (real 1) = real 0 := by
    simp [Scalar.log, Extended.log]
  have hexp : Scalar.exp (real 0) = real 1 := by
    simp [Scalar.exp, Extended.exp]
  have hmean := Column.geometricMean_singleton (real 1)
  rw [hlog, zero_def, real_add, ofCount_def, Nat.cast_one, real_div _ _ one_ne_zero, add_zero,
    zero_div, hexp] at hmean
  exact hmean

theorem geometricMean_above : Column.geometricMean #[above] = above := by
  have hdiv : above / real 1 = above := if_neg (not_lt.mpr zero_le_one)
  have hmean := Column.geometricMean_singleton above
  rw [ofCount_def, Nat.cast_one] at hmean
  exact hmean.trans (congrArg Scalar.exp hdiv)

theorem passes_endlessSale :
    oneAsset.Passes (Settings.default (F := Extended)).epsClip endlessSale := by
  have hdelta : endlessSale.slice 0 oneAsset.assets = #[above] := rfl
  have hlam : endlessSale.slice oneAsset.assets oneAsset.assets = #[real 0] := rfl
  constructor
  · rw [hdelta]
    rintro v hv
    obtain rfl := List.mem_singleton.mp (Array.mem_toList_iff.mpr hv)
    exact False.elim
  · rw [hlam]
    rintro v hv hneg
    obtain rfl := List.mem_singleton.mp (Array.mem_toList_iff.mpr hv)
    exact absurd hneg (lt_irrefl (0 : ℝ))
  · rw [clippedTrade_endlessSale, growthLoss?_eq_none_iff, newGrowth_endlessTrade,
      geometricMean_above, geometricMean_oneAsset]
    refine ⟨fun e he => ?_, ?_⟩
    · obtain rfl := List.mem_singleton.mp (Array.mem_toList_iff.mpr he)
      trivial
    · simp [Scalar.max, Scalar.isNaN, Extended.isNaN, Settings.default, Scalar.tenToMinus]
      trivial

/-- An undefined sale and an infinite purchase are refused. -/
theorem rebalance_regular_oneAsset :
    oneAsset.validate Settings.default = .ok 1 ∧
    Scalar.isFinite (Settings.default (F := Extended)).epsClip = true ∧
    ∀ x : Column Extended, x = #[undefined, 0, 0] ∨ x = #[0, above, 0] →
      ∃ report, rebalance Settings.default (fun _ _ => some (.ok x)) oneAsset = some report ∧
        report.result = .error .invalidSolution := by
  have heps : Scalar.isFinite (Settings.default (F := Extended)).epsClip = true :=
    isFinite_tenToMinus 4
  refine ⟨validate_oneAsset, heps, fun x hx => ?_⟩
  obtain ⟨p, -, hanswers⟩ := rebalance_regular validate_oneAsset heps
  rcases hx with rfl | rfl
  · obtain ⟨report, hreport, -, hrefused⟩ := hanswers (fun _ _ => some (.ok #[undefined, 0, 0]))
      _ rfl rfl
    have hother : ¬ (0 < 1 ∧ undefined = above ∧ 0 < oneAsset.coupling) := by simp
    exact ⟨report, hreport, (hrefused 0 Nat.two_pos rfl hother).1⟩
  · obtain ⟨report, hreport, -, hrefused⟩ := hanswers (fun _ _ => some (.ok #[0, above, 0]))
      _ rfl rfl
    have hother : ¬ (1 < 1 ∧ above = above ∧ 0 < oneAsset.coupling) := by simp
    exact ⟨report, hreport, (hrefused 1 Nat.one_lt_two rfl hother).1⟩

/-- A solver with that answer. -/
def sellsEndlessly : ConicSolver Extended := fun _ _ => some (.ok endlessSale)

/-- An infinite sale is decided for, and moves the state that it is decided from to
infinity. -/
theorem infinite_sale_decided :
    oneAsset.validate Settings.default = .ok 1 ∧
    ∃ report d,
      rebalance Settings.default sellsEndlessly oneAsset = some report ∧
      report.result = .ok d ∧ d.trade.delta = #[Scalar.infinity] ∧
      Scalar.isFinite (Scalar.infinity : Extended) = false ∧
      (oneAsset.state.step Settings.default sellsEndlessly oneAsset.outlook).2 =
        { allocation := #[-Scalar.infinity], growth := #[Scalar.infinity], period := 1 } := by
  have hanswer : sellsEndlessly (Settings.default (F := Extended)).solver
      (oneAsset.program SymMatrix.sqrt (Settings.default (F := Extended)).solver.epsZero).conic =
        some (.ok endlessSale) := rfl
  obtain ⟨report, hreport, hdecides, -⟩ := rebalanceBy_of_answer validate_oneAsset hanswer rfl
  have hvalid : (oneAsset.state.inputs oneAsset.outlook).validate Settings.default = .ok 1 :=
    validate_oneAsset
  obtain ⟨-, -, -, hstep⟩ := RollingState.step_of_passes hvalid hanswer rfl passes_endlessSale
  have hmoved : oneAsset.state.moved endlessTrade oneAsset.coupling =
      { allocation := #[-Scalar.infinity], growth := #[Scalar.infinity], period := 1 } := by
    rw [RollingState.moved]
    exact congrArg (RollingState.mk #[below] · 1) newGrowth_endlessTrade
  refine ⟨validate_oneAsset, report, _, hreport, hdecides passes_endlessSale, ?_, rfl, ?_⟩
  · exact congrArg Trade.delta clippedTrade_endlessSale
  · rw [← hmoved, ← clippedTrade_endlessSale]
    exact hstep

end OneAsset

end Rebalancing
