-- SUMMARY: How much of the geometric mean of the growth proxy a decision can cost, and from which size on that is a fixed share.
import Mathlib
import Rebalancing.Proofs.Acceptance

/-!
# What decisions cost

The test of an answer lets the geometric mean of the growth proxy fall by the
tolerance times the greater of one and the mean. For a mean below one that is an
amount and not a share: however small the tolerance, there are growth proxies of
which a decision may take nearly everything.
-/

open Finset

namespace Rebalancing

/-! ## The fall that the test allows -/

/-- After a decision every entry of the growth proxy is above zero, and the geometric
mean fell by no more than the tolerance allows. -/
theorem exists_newGrowth_of_ok {root : RootMethod ℝ} {par : Settings ℝ} {solver : ConicSolver ℝ}
    {inp : Inputs ℝ} {report : Report ℝ} {d : Decision ℝ}
    (h : rebalanceBy root par solver inp = some report) (hd : report.result = .ok d) :
    ∃ after, d.trade.newGrowth? inp.growth inp.coupling = some after ∧ (∀ e ∈ after, 0 < e) ∧
      inp.growth.geometricMean - par.epsClip * max 1 inp.growth.geometricMean ≤
        after.geometricMean := by
  obtain ⟨x, hvalid, -, -, hpasses, rfl⟩ := exists_answer_of_ok h hd
  have hgrowth := (Inputs.sized_of_validate hvalid).1.size_growth
  obtain ⟨hpos, hmean⟩ := (growthLoss?_eq_none_iff _ _ _).mp hpasses.growthLoss_eq
  rw [Scalar.max_real] at hmean
  exact ⟨_, (x.ofSize_clippedTrade inp.assets).newGrowth?_eq_some hgrowth inp.coupling, hpos, hmean⟩

/-- No decision takes more than a share of a geometric mean of `g`, whatever the inputs,
the solver and the method of taking roots. -/
def Settings.LosesAtMost (par : Settings ℝ) (share g : ℝ) : Prop :=
  ∀ (root : RootMethod ℝ) (solver : ConicSolver ℝ) (inp : Inputs ℝ) (report : Report ℝ)
    (d : Decision ℝ),
    inp.growth.geometricMean = g → rebalanceBy root par solver inp = some report →
    report.result = .ok d →
    ∃ after, d.trade.newGrowth? inp.growth inp.coupling = some after ∧
      g * (1 - share) ≤ after.geometricMean

/-! ## Selling as much as the test lets through -/

theorem Column.geometricMean_single {v : ℝ} (h : 0 < v) : Column.geometricMean #[v] = v := by
  have hcoord : Column.coord #[v] 0 = v := by simp [Column.coord]
  have hpow := Column.geometricMean_pow (v := #[v]) Nat.one_pos fun i hi => by
    rw [Nat.lt_one_iff.mp hi, hcoord]
    exact h
  rw [List.size_toArray, List.length_singleton, pow_one, prod_range_one, hcoord] at hpow
  exact hpow

namespace Inputs

/-- One asset of which nothing is expected, with a growth proxy of `g`. -/
noncomputable def thin (g : ℝ) : Inputs ℝ where
  returns := #[0]
  covariance := .packed (.ofFn 1 fun _ _ => 1)
  riskAversion := 1
  coupling := 1
  allocation := #[1]
  growth := #[g]

theorem validate_thin {g : ℝ} (hg : 0 < g) {par : Settings ℝ} (htol : 0 ≤ par.psdTol) :
    (thin g).validate par = .ok 1 := by
  have horder : (SymMatrix.ofFn 1 fun _ _ => (1 : ℝ)).order = 1 := SymMatrix.order_ofFn _ _
  refine validate_of_isDiagonal rfl ?_ ?_ Nat.one_pos horder rfl rfl zero_le_one ?_ htol
  · intro i j hij hj
    rw [horder] at hj
    omega
  · intro i hi
    rw [SymMatrix.entry_ofFn _ le_rfl (horder ▸ hi)]
    exact zero_le_one
  · simpa [thin] using hg

end Inputs

/-- The answer that takes `v` of the growth proxy of one asset. -/
def buying (v : ℝ) : Column ℝ := #[0, v, 0]

/-- A solver with that answer. -/
def buys (v : ℝ) : ConicSolver ℝ := fun _ _ => some (.ok (buying v))

section Buying

variable {g v : ℝ} {par : Settings ℝ} (hv : 0 ≤ v) (hlt : v < g)

include hv

theorem trade_buying : (buying v).trade 1 = { delta := #[0], lam := #[v] } := by
  have hdelta : (buying v).slice 0 1 = #[0] := rfl
  have hlam : (buying v).slice 1 1 = #[v] := rfl
  simp [Column.trade, hdelta, hlam, hv]

theorem newGrowth_buying :
    ((buying v).trade (Inputs.thin g).assets).newGrowth (Inputs.thin g).growth
      (Inputs.thin g).coupling = #[g - v] := by
  have hassets : (Inputs.thin g).assets = 1 := rfl
  rw [hassets, trade_buying hv]
  have hsize : Trade.OfSize { delta := #[(0 : ℝ)], lam := #[v] } 1 := ⟨rfl, rfl⟩
  refine Column.ext_coord rfl fun i hi => ?_
  obtain rfl : i = 0 := Nat.lt_one_iff.mp hi
  rw [hsize.coord_newGrowth rfl _ Nat.one_pos]
  simp [Inputs.thin, Column.coord]

include hlt

/-- The test lets an answer through that takes no more than the tolerance allows. -/
theorem accepts_buying (hle : v ≤ par.epsClip * max 1 g) :
    (Inputs.thin g).Accepts par.epsClip (buying v) := by
  have hassets : (Inputs.thin g).assets = 1 := rfl
  have hdelta : (buying v).slice 0 1 = #[0] := rfl
  have hlam : (buying v).slice 1 1 = #[v] := rfl
  have hpos : 0 < g := hv.trans_lt hlt
  have hmean : (Inputs.thin g).growth.geometricMean = g := Column.geometricMean_single hpos
  constructor
  · rw [hassets, hdelta]
    exact Column.withinNoise_of_nonneg (by simp [Column.coord]) _
  · rw [hassets, hlam]
    exact Column.withinNoise_of_nonneg (by simpa [Column.coord] using hv) _
  · intro i hi
    obtain rfl : i = 0 := Nat.lt_one_iff.mp hi
    rw [hassets, trade_buying hv]
    simpa [Inputs.thin, Column.coord] using hlt
  · rw [newGrowth_buying hv, hmean, Column.geometricMean_single (sub_pos.mpr hlt),
      Scalar.max_real]
    linarith

/-- Such an answer becomes a decision, and the growth proxy after it is less by what the
answer takes. -/
theorem exists_report_buying (htol : 0 ≤ par.psdTol) (hle : v ≤ par.epsClip * max 1 g)
    (root : RootMethod ℝ) :
    ∃ report d, rebalanceBy root par (buys v) (Inputs.thin g) = some report ∧
      report.result = .ok d ∧
      d.trade.newGrowth? (Inputs.thin g).growth (Inputs.thin g).coupling = some #[g - v] := by
  have hvalid := Inputs.validate_thin (hv.trans_lt hlt) htol
  have hsized := (Inputs.sized_of_validate hvalid).1
  have hnum : ∀ i < 2 * (Inputs.thin g).assets, Scalar.isNaN ((buying v).coord i) = false :=
    fun _ _ => rfl
  have hanswer : buys v par.solver ((Inputs.thin g).program root par.solver.epsZero).conic =
      some (.ok (buying v)) := rfl
  obtain ⟨report, hreport, hdecides, -⟩ := rebalanceBy_of_answer hvalid hanswer rfl
  refine ⟨report, _, hreport,
    hdecides ((passes_iff_accepts hsized _ hnum).mpr (accepts_buying hv hlt hle)), ?_⟩
  have ht := (buying v).ofSize_clippedTrade (Inputs.thin g).assets
  refine (ht.newGrowth?_eq_some hsized.size_growth _).trans ?_
  rw [clippedTrade_eq_trade hnum, newGrowth_buying hv]

end Buying

/-! ## Shares -/

/-- Decisions take at most a share of a geometric mean exactly where the tolerance is at
most that share of it. -/
theorem losesAtMost_iff {par : Settings ℝ} (htol : 0 ≤ par.psdTol) {share g : ℝ}
    (hshare : 0 ≤ share) (hone : share < 1) (hg : 0 < g) :
    par.LosesAtMost share g ↔ par.epsClip * max 1 g ≤ share * g := by
  constructor
  · intro h
    by_contra hlt
    -- More than the share, but neither more than the tolerance nor all there is.
    obtain ⟨v, hv, hv'⟩ : ∃ v, share * g < v ∧ v < min (par.epsClip * max 1 g) g :=
      exists_between (lt_min (not_le.mp hlt) (mul_lt_of_lt_one_left hg hone))
    obtain ⟨hle, hvg⟩ := lt_min_iff.mp hv'
    have hnonneg : 0 ≤ v := (mul_nonneg hshare hg.le).trans hv.le
    obtain ⟨report, d, hreport, hd, hafter⟩ :=
      exists_report_buying hnonneg hvg htol hle.le SymMatrix.sqrt
    obtain ⟨after, hafter', hmean⟩ :=
      h _ _ _ report d (Column.geometricMean_single hg) hreport hd
    obtain rfl := Option.some.inj (hafter.symm.trans hafter')
    rw [Column.geometricMean_single (sub_pos.mpr hvg)] at hmean
    linarith
  · intro hle root solver inp report d hmean hreport hd
    obtain ⟨after, hafter, -, hfall⟩ := exists_newGrowth_of_ok hreport hd
    rw [hmean] at hfall
    exact ⟨after, hafter, by linarith⟩

/-- Under the default settings a decision leaves the growth proxy above zero, and its
geometric mean falls by no more than a ten-thousandth of the greater of one and the
mean. So it falls by no more than a thousandth of itself where it was a tenth or
more, and nowhere else is that so for every decision. -/
theorem default_losesAtMost_iff :
    (∀ (root : RootMethod ℝ) (solver : ConicSolver ℝ) (inp : Inputs ℝ) (report : Report ℝ)
      (d : Decision ℝ),
      rebalanceBy root .default solver inp = some report → report.result = .ok d →
      ∃ after, d.trade.newGrowth? inp.growth inp.coupling = some after ∧ (∀ e ∈ after, 0 < e) ∧
        inp.growth.geometricMean - 1 / 10000 * max 1 inp.growth.geometricMean ≤
          after.geometricMean) ∧
      ∀ g : ℝ, 0 < g → (Settings.default.LosesAtMost (1 / 1000) g ↔ 1 / 10 ≤ g) := by
  refine ⟨fun root solver inp report d hreport hd => ?_, fun g hg => ?_⟩
  · obtain ⟨after, hafter, hpos, hmean⟩ := exists_newGrowth_of_ok hreport hd
    rw [epsClip_default] at hmean
    exact ⟨after, hafter, hpos, hmean⟩
  · rw [losesAtMost_iff psdTol_default_nonneg (by norm_num) (by norm_num) hg, epsClip_default]
    rcases le_total 1 g with h | h
    · rw [max_eq_right h]
      exact iff_of_true (by linarith) (by linarith)
    · rw [max_eq_left h]
      constructor <;> intro hle <;> linarith

/-- Of a growth proxy of two tenths a decision takes something, and none takes more than
a thousandth of it. Of one of two hundredths, some takes more. -/
theorem default_losesAtMost_fifth :
    (∃ report d after,
      rebalance Settings.default (buys (1 / 20000)) (Inputs.thin (1 / 5)) = some report ∧
        report.result = .ok d ∧
        d.trade.newGrowth? (Inputs.thin (1 / 5)).growth (Inputs.thin (1 / 5)).coupling =
          some after ∧
        (∀ e ∈ after, 0 < e) ∧ 1 / 5 - 1 / 10000 ≤ after.geometricMean) ∧
      Settings.default.LosesAtMost (1 / 1000) (1 / 5) ∧
      ¬ Settings.default.LosesAtMost (1 / 1000) (1 / 50) := by
  obtain ⟨hfall, hiff⟩ := default_losesAtMost_iff
  refine ⟨?_, (hiff (1 / 5) (by norm_num)).mpr (by norm_num), fun h => ?_⟩
  · have hle : (1 / 20000 : ℝ) ≤ (Settings.default (F := ℝ)).epsClip * max 1 (1 / 5) := by
      norm_num [epsClip_default]
    obtain ⟨report, d, hreport, hd, -⟩ := exists_report_buying (g := 1 / 5)
      (by norm_num) (by norm_num) psdTol_default_nonneg hle SymMatrix.sqrt
    obtain ⟨after, hafter, hpos, hmean⟩ := hfall _ _ _ report d hreport hd
    have hbefore : (Inputs.thin (1 / 5)).growth.geometricMean = 1 / 5 :=
      Column.geometricMean_single (by norm_num)
    rw [hbefore] at hmean
    norm_num at hmean
    exact ⟨report, d, after, hreport, hd, hafter, hpos, by linarith⟩
  · exact absurd ((hiff (1 / 50) (by norm_num)).mp h) (by norm_num)

/-- Of a growth proxy of one hundredth, a decision takes one part in two hundred. -/
theorem thin_growth_falls :
    (Inputs.thin (1 / 100)).validate Settings.default = .ok 1 ∧
      ∃ report d after,
        rebalance Settings.default (buys (1 / 20000)) (Inputs.thin (1 / 100)) = some report ∧
        report.result = .ok d ∧
        d.trade.newGrowth? (Inputs.thin (1 / 100)).growth (Inputs.thin (1 / 100)).coupling =
          some after ∧
        after.geometricMean < (Inputs.thin (1 / 100)).growth.geometricMean * (1 - 1 / 1000) := by
  have hvalid : (Inputs.thin (1 / 100)).validate Settings.default = .ok 1 :=
    Inputs.validate_thin (by norm_num) psdTol_default_nonneg
  have hle : (1 / 20000 : ℝ) ≤ (Settings.default (F := ℝ)).epsClip * max 1 (1 / 100) := by
    norm_num [epsClip_default]
  obtain ⟨report, d, hreport, hd, hafter⟩ := exists_report_buying (g := 1 / 100)
    (by norm_num) (by norm_num) psdTol_default_nonneg hle SymMatrix.sqrt
  have hmean : (Inputs.thin (1 / 100)).growth.geometricMean = 1 / 100 :=
    Column.geometricMean_single (by norm_num)
  refine ⟨hvalid, report, d, _, hreport, hd, hafter, ?_⟩
  rw [hmean, Column.geometricMean_single (by norm_num)]
  norm_num

end Rebalancing
