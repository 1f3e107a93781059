-- SUMMARY: Trade programs are never refuted, and their cost has a bound or a ray by the risk aversion.
import Mathlib
import Rebalancing.Proofs.Conic.Certificate
import Rebalancing.Proofs.Optimality
import Rebalancing.Proofs.TradeProgram.Matrices

/-!
# Certificates of trade programs

Not to trade is always possible, so no certificate refutes the program of validated
inputs. Without risk aversion nothing bounds how much of an asset is exchanged: where
that gains more than it costs, the exchange is a ray of the program. With risk aversion
and a definite covariance the variance outgrows what any trade can gain.
-/

open Finset Matrix

namespace Rebalancing

/-! ## Sizes -/

/-- The operators and the cone of a trade program fit together. -/
theorem TradeProgram.Sized.consistent {p : TradeProgram ℝ} (hp : p.Sized) :
    p.conic.Consistent where
  within_cost := within_cost
  within_system := within_system hp
  within_rightHand := within_rightHand hp
  rows_cost := rfl
  cols_cost := rfl
  rows_rightHand := rfl
  cols_rightHand := rfl
  dim_cone := by
    rw [ProductCone.dim_eq]
    simp only [conic, cone, system, rows, GrowthTree.rows, auxiliaries, List.sum_cons,
      List.sum_replicate, smul_eq_mul]
    ring

/-! ## Stacked columns on a line -/

/-- Trades on a line that share the rest of their columns have columns on a line. -/
theorem Trade.OfSize.coord_stack_of_line {t t' d : Trade ℝ} {n : ℕ} (ht : t.OfSize n)
    (ht' : t'.OfSize n) (hd : d.OfSize n) {a : ℝ}
    (hdelta : ∀ i < n, t'.delta.coord i = t.delta.coord i + a * d.delta.coord i)
    (hlam : ∀ i < n, t'.lam.coord i = t.lam.coord i + a * d.lam.coord i) (u : Column ℝ)
    (bound : ℝ) (c : ℕ) :
    (t'.stack u bound).coord c =
      (t.stack u bound).coord c + a * (d.stack (Column.zeros u.size) 0).coord c := by
  rcases lt_or_ge c n with hfirst | hfirst
  · rw [ht'.coord_stack_delta u bound hfirst, ht.coord_stack_delta u bound hfirst,
      hd.coord_stack_delta _ _ hfirst, hdelta c hfirst]
  obtain ⟨j, rfl⟩ := Nat.exists_eq_add_of_le hfirst
  rcases lt_or_ge j n with hsecond | hsecond
  · rw [ht'.coord_stack_lam u bound hsecond, ht.coord_stack_lam u bound hsecond,
      hd.coord_stack_lam _ _ hsecond, hlam j hsecond]
  obtain ⟨k, rfl⟩ := Nat.exists_eq_add_of_le hsecond
  have hzero : Column.coord (Column.zeros u.size ++ #[(0 : ℝ)]) k = 0 := by
    rw [Column.coord_append]
    split
    · exact Column.coord_zeros _ _
    · exact Column.coord_zeros 1 _
  rw [← Nat.add_assoc, ← two_mul, ht'.coord_stack_rest, ht.coord_stack_rest, hd.coord_stack_rest,
    hzero, mul_zero, add_zero]

namespace Inputs

/-! ## The point that does not trade -/

/-- A trade that leaves the growth proxy as it is leaves the growth tree its values. -/
theorem tightFor_of_newGrowth {inp : Inputs ℝ} {root : RootMethod ℝ} {epsZero : ℝ} {t : Trade ℝ}
    (h : ∀ j < inp.growth.size,
      inp.growth.coord j + inp.coupling * t.delta.coord j - t.lam.coord j = inp.growth.coord j) :
    (inp.program root epsZero).tree.tightFor t.delta t.lam =
      (inp.program root epsZero).tree.tight inp.growth (inp.program root epsZero).tree.floor := by
  have hassets : (inp.program root epsZero).tree.assets = inp.growth.size := rfl
  have hleaves : Column.tabulate inp.growth.size
      ((inp.program root epsZero).tree.newGrowth t.delta t.lam) = inp.growth := by
    apply Column.ext_coord (Column.size_tabulate _ _)
    intro j hj
    rw [Column.size_tabulate] at hj
    rw [Column.coord_tabulate, if_pos hj]
    exact h j hj
  rw [GrowthTree.tightFor, hassets, hleaves]

/-- Without a trade the leaves of the growth tree are the growth proxy itself. -/
theorem tight?_eq_tightFor_noTrade (inp : Inputs ℝ) (root : RootMethod ℝ) (epsZero : ℝ) :
    (inp.program root epsZero).tree.tight? inp.growth inp.growth.geometricMean =
      some ((inp.program root epsZero).tree.tightFor inp.noTrade.delta inp.noTrade.lam) := by
  have hassets : inp.growth.size = (inp.program root epsZero).tree.assets := rfl
  rw [GrowthTree.tight?, if_pos hassets, tightFor_of_newGrowth fun j _ => by simp [noTrade]]
  rfl

/-- Validated inputs have a program that is never refuted: the column that does not
trade, with the tight values of the growth proxy and the variance of the current
allocation as its bound, is a point. -/
theorem exists_point_not_refutedBy {inp : Inputs ℝ} {par : Settings ℝ} {n : ℕ}
    (hvalid : inp.validate par = .ok n) (root : RootMethod ℝ) (epsZero : ℝ)
    (hpsd : inp.covariance.symmetrize.Semidefinite)
    (hroot : root.ExactAt inp.covariance.symmetrize epsZero) :
    ∃ p u, inp.program? root epsZero = some p ∧
      p.tree.tight? inp.growth inp.growth.geometricMean = some u ∧
      p.conic.Feasible (Trade.stack { delta := Column.zeros n, lam := Column.zeros n } u
        (inp.riskAversion * inp.covariance.quadForm inp.allocation)) ∧
      ∀ y, ¬ p.conic.RefutedBy y := by
  have hinp := proper_of_validate hvalid hpsd hroot
  obtain rfl := (sized_of_validate hvalid).2
  have hpoint := feasible_cheapest hinp (ofSize_noTrade inp) (admits_noTrade hinp)
  have hfits := (sized_program hinp).consistent
  refine ⟨_, _, program?_eq_some root epsZero hinp.toSized,
    tight?_eq_tightFor_noTrade inp root epsZero, ?_, fun y => hpoint.not_refutedBy hfits y⟩
  rwa [cheapest, newAllocation_noTrade hinp] at hpoint

/-- Two leaves of one have a tight value of one above them. -/
theorem tight?_twoAssets :
    (twoAssets.program SymMatrix.sqrt 0).tree.tight? twoAssets.growth
      twoAssets.growth.geometricMean = some #[1] := by
  have hassets : (twoAssets.program SymMatrix.sqrt 0).tree.assets = 2 := rfl
  have hinner : (twoAssets.program SymMatrix.sqrt 0).tree.inner = 1 := rfl
  have hleaf : ∀ j < 2, twoAssets.growth.coord j = 1 := by
    intro j hj
    interval_cases j <;> rfl
  have hroot : ∀ leaf : ℕ → ℝ, GrowthTree.tightValue 1 leaf 0 = √(leaf 0 * leaf 1) := by
    intro leaf
    have hleft : GrowthTree.tightValue 1 leaf 1 = leaf 0 := GrowthTree.tightValue_leaf 0
    have hright : GrowthTree.tightValue 1 leaf 2 = leaf 1 := GrowthTree.tightValue_leaf 1
    rw [GrowthTree.tightValue_inner Nat.one_pos, hleft, hright]
  have hsize : twoAssets.growth.size = (twoAssets.program SymMatrix.sqrt 0).tree.assets := rfl
  have hone : ∀ f : ℕ → ℝ, Column.tabulate 1 f = #[f 0] := fun _ => rfl
  rw [GrowthTree.tight?, if_pos hsize, GrowthTree.tight, hinner, hone, hroot, hassets,
    if_pos Nat.two_pos, if_pos Nat.one_lt_two, hleaf 0 Nat.two_pos, hleaf 1 Nat.one_lt_two,
    mul_one, Real.sqrt_one]

/-- With two assets the point that does not trade holds the geometric mean of their
growth and half of their variance. -/
theorem exists_point_not_refutedBy_twoAssets :
    twoAssets.validate Settings.default = .ok 2 ∧
      twoAssets.covariance.symmetrize.Semidefinite ∧
      RootMethod.ExactAt SymMatrix.sqrt twoAssets.covariance.symmetrize 0 ∧
      ∃ p, twoAssets.program? SymMatrix.sqrt 0 = some p ∧
        p.conic.Feasible #[0, 0, 0, 0, 1, 3 / 2] ∧ ∀ y, ¬ p.conic.RefutedBy y := by
  have hpsd := (isRootOf_twoAssets 0).semidefinite
  have hroot : RootMethod.ExactAt SymMatrix.sqrt twoAssets.covariance.symmetrize 0 :=
    fun _ => isRootOf_twoAssets 0
  refine ⟨validate_twoAssets, hpsd, hroot, ?_⟩
  obtain ⟨p, u, hp, hu, hfeasible, hrefuted⟩ :=
    exists_point_not_refutedBy validate_twoAssets SymMatrix.sqrt 0 hpsd hroot
  refine ⟨p, hp, ?_, hrefuted⟩
  obtain rfl := Option.some.inj ((program?_eq_some _ _ (proper_twoAssets 0).toSized).symm.trans hp)
  obtain rfl := Option.some.inj (tight?_twoAssets.symm.trans hu)
  have hbound : twoAssets.riskAversion * twoAssets.covariance.quadForm twoAssets.allocation =
      3 / 2 := by
    rw [quadForm_twoAssets rfl, riskAversion_twoAssets]
    norm_num [twoAssets, Column.coord]
  rwa [hbound] at hfeasible

/-! ## Exchanges -/

/-- Take some of one asset, and add what keeps its growth. -/
noncomputable def exchange (inp : Inputs ℝ) (i : ℕ) (amount : ℝ) : Trade ℝ where
  delta := Column.tabulate inp.assets fun j => if j = i then amount else 0
  lam := Column.tabulate inp.assets fun j => if j = i then inp.coupling * amount else 0

section Exchanges

variable (inp : Inputs ℝ) (i : ℕ) (amount : ℝ)

theorem ofSize_exchange : (inp.exchange i amount).OfSize inp.assets :=
  ⟨Column.size_tabulate _ _, Column.size_tabulate _ _⟩

theorem coord_exchange_delta {j : ℕ} (hj : j < inp.assets) :
    (inp.exchange i amount).delta.coord j = if j = i then amount else 0 := by
  rw [exchange, Column.coord_tabulate, if_pos hj]

theorem coord_exchange_lam {j : ℕ} (hj : j < inp.assets) :
    (inp.exchange i amount).lam.coord j = if j = i then inp.coupling * amount else 0 := by
  rw [exchange, Column.coord_tabulate, if_pos hj]

/-- An exchange leaves the growth proxy as it is. -/
theorem newGrowth_exchange {j : ℕ} (hj : j < inp.assets) :
    inp.growth.coord j + inp.coupling * (inp.exchange i amount).delta.coord j -
      (inp.exchange i amount).lam.coord j = inp.growth.coord j := by
  rw [inp.coord_exchange_delta i amount hj, inp.coord_exchange_lam i amount hj]
  split <;> ring

end Exchanges

section Costs

variable {inp : Inputs ℝ} {root : RootMethod ℝ} {epsZero : ℝ}

theorem admits_exchange (hgrowth : ∀ j < inp.assets, 0 < inp.growth.coord j)
    (hγ : 0 ≤ inp.coupling) {i : ℕ} {amount : ℝ} (hamount : 0 ≤ amount) :
    inp.Admits (inp.exchange i amount) := by
  refine ⟨fun j hj => ?_, fun j hj => ?_, fun j hj => ?_, ?_⟩
  · rw [inp.coord_exchange_delta i amount hj]
    positivity
  · rw [inp.coord_exchange_lam i amount hj]
    positivity
  · rw [inp.newGrowth_exchange i amount hj]
    exact (hgrowth j hj).le
  · exact (prod_congr rfl fun j hj => inp.newGrowth_exchange i amount (mem_range.mp hj)).ge

/-- What an exchange of one unit costs. -/
theorem costAt_exchange (i : ℕ) (hi : i < inp.assets) {u : Column ℝ}
    (hu : u.size = (inp.program root epsZero).auxiliaries) :
    (inp.program root epsZero).conic.costAt ((inp.exchange i 1).stack u 0) =
      -((inp.coupling - 1) * inp.returns.coord i) := by
  have ht := inp.ofSize_exchange i 1
  have hassets : (inp.program root epsZero).assets = inp.assets := rfl
  have hreturns : (inp.program root epsZero).returns = inp.returns := rfl
  have hdelta : ∀ j ∈ range inp.assets,
      inp.returns.coord j * ((inp.exchange i 1).stack u 0).coord j =
        if j = i then inp.returns.coord i else 0 := by
    intro j hj
    rw [ht.coord_stack_delta u 0 (mem_range.mp hj), inp.coord_exchange_delta i 1 (mem_range.mp hj)]
    split <;> simp_all
  have hlam : ∀ j ∈ range inp.assets,
      inp.returns.coord j * ((inp.exchange i 1).stack u 0).coord (inp.assets + j) =
        if j = i then inp.returns.coord i * inp.coupling else 0 := by
    intro j hj
    rw [ht.coord_stack_lam u 0 (mem_range.mp hj), inp.coord_exchange_lam i 1 (mem_range.mp hj)]
    split <;> simp_all
  rw [TradeProgram.costAt_conic, hassets, hreturns, ← hu, ht.coord_stack_bound,
    sum_congr rfl hdelta, sum_congr rfl hlam, sum_ite_eq' , sum_ite_eq', if_pos (mem_range.mpr hi),
    if_pos (mem_range.mpr hi)]
  ring

/-- Without risk aversion an exchange is completed by the same numbers whatever its
amount. -/
theorem cheapest_exchange (hsize : inp.growth.size = inp.assets) (hκ : inp.riskAversion = 0)
    (i : ℕ) (amount : ℝ) :
    inp.cheapest root epsZero (inp.exchange i amount) =
      (inp.exchange i amount).stack
        ((inp.program root epsZero).tree.tight inp.growth (inp.program root epsZero).tree.floor)
        0 := by
  rw [cheapest, tightFor_of_newGrowth fun j hj => inp.newGrowth_exchange i amount (hsize ▸ hj), hκ,
    zero_mul]

/-- Without risk aversion an exchange that gains more than it costs is a ray. -/
theorem isRay_exchange (hinp : inp.Proper root epsZero) (hκ : inp.riskAversion = 0)
    (hγ : 0 ≤ inp.coupling) {i : ℕ} (hi : i < inp.assets)
    (hgain : 0 < (inp.coupling - 1) * inp.returns.coord i) :
    ∃ d, (inp.program root epsZero).conic.IsRay d := by
  let u := (inp.program root epsZero).tree.tight inp.growth (inp.program root epsZero).tree.floor
  have hu : u.size = (inp.program root epsZero).auxiliaries := GrowthTree.size_tight _ _ _
  have hzeros : (Column.zeros u.size : Column ℝ).size = (inp.program root epsZero).auxiliaries :=
    (Column.size_zeros _).trans hu
  refine ⟨(inp.exchange i 1).stack (Column.zeros u.size) 0,
    ConicProgram.isRay_of_forall_feasible (sized_program hinp).consistent
      (x := inp.cheapest root epsZero (inp.exchange i 0)) ?_ ?_ ?_⟩
  · rw [(inp.ofSize_exchange i 1).size_stack, hzeros]
    rfl
  · intro a ha
    refine ⟨inp.cheapest root epsZero (inp.exchange i a), ?_, fun c _ => ?_⟩
    · exact feasible_cheapest hinp (inp.ofSize_exchange i a)
        (admits_exchange hinp.growth_pos hγ ha)
    · rw [cheapest_exchange hinp.size_growth hκ, cheapest_exchange hinp.size_growth hκ]
      refine (inp.ofSize_exchange i 0).coord_stack_of_line (inp.ofSize_exchange i a)
        (inp.ofSize_exchange i 1) (fun j hj => ?_) (fun j hj => ?_) u 0 c
      · simp only [inp.coord_exchange_delta i _ hj]
        split <;> ring
      · simp only [inp.coord_exchange_lam i _ hj]
        split <;> ring
  · rw [costAt_exchange i hi hzeros]
    linarith

end Costs

/-! ## Programs without risk aversion -/

section Still

variable {inp : Inputs ℝ} {root : RootMethod ℝ} {epsZero : ℝ}

/-- The same inputs with returns that do not vary. -/
noncomputable def still (inp : Inputs ℝ) : Inputs ℝ :=
  { inp with covariance := .packed (.ofFn inp.assets fun _ _ => 0) }

theorem order_still (inp : Inputs ℝ) : inp.still.covariance.symmetrize.order = inp.assets :=
  SymMatrix.order_ofFn _ _

theorem toMatrix_still (inp : Inputs ℝ) :
    (inp.still.covariance.symmetrize).toMatrix inp.assets = 0 := by
  have hcell : ∀ r c, r < inp.assets → c < inp.assets →
      inp.still.covariance.symmetrize.entry r c = 0 := by
    intro r c hr hc
    unfold SymMatrix.entry
    split
    · exact SymMatrix.upper_ofFn _ ‹_› hc
    · exact SymMatrix.upper_ofFn _ (by omega) hr
  ext r c
  exact hcell r c r.isLt c.isLt

theorem proper_still (hinp : inp.Sized) (hκ : 0 ≤ inp.riskAversion)
    (hgrowth : ∀ i < inp.assets, 0 < inp.growth.coord i) :
    inp.still.Proper (fun m _ => m) epsZero := by
  have hsize : inp.still.covariance.size = (inp.assets, inp.assets) :=
    congrArg₂ Prod.mk inp.order_still inp.order_still
  refine ⟨⟨hinp.assets_pos, hsize, hinp.size_allocation, hinp.size_growth⟩, hκ, hgrowth, rfl, ?_⟩
  rw [order_still, toMatrix_still, mul_zero]

/-- Without risk aversion the covariance and its root do not show in the program. -/
theorem program_still (hinp : inp.Sized) (hκ : inp.riskAversion = 0)
    (horder : (root inp.covariance.symmetrize epsZero).order = inp.covariance.symmetrize.order) :
    inp.still.program (fun m _ => m) epsZero = inp.program root epsZero := by
  have hassets : (root inp.covariance.symmetrize epsZero).order = inp.assets :=
    horder.trans (Covariance.order_symmetrize hinp.size_covariance)
  have hzero : √(inp.riskAversion + inp.riskAversion) = 0 := by
    rw [hκ, add_zero, Real.sqrt_zero]
  have hroot : inp.still.covariance.symmetrize.scale √(inp.riskAversion + inp.riskAversion) =
      (root inp.covariance.symmetrize epsZero).scale √(inp.riskAversion + inp.riskAversion) := by
    refine SymMatrix.eq_of_toMatrix_eq ((SymMatrix.order_ofFn _ _).trans inp.order_still)
      ((SymMatrix.order_ofFn _ _).trans hassets) ?_
    rw [SymMatrix.toMatrix_scale inp.order_still, SymMatrix.toMatrix_scale hassets, hzero,
      zero_smul, zero_smul]
  exact congrArg (fun S : SymMatrix ℝ => ({
    returns := inp.returns
    riskRoot := S
    riskNow := Column.tabulate inp.returns.size fun r => S.rowDot r inp.allocation 0
    tree := {
      growth := inp.growth
      coupling := inp.coupling
      floor := inp.growth.geometricMean } } : TradeProgram ℝ)) hroot

end Still

/-! ## Programs with risk aversion -/

/-- The expected return is the product of the returns with the allocation. -/
theorem expectedReturn_eq_dotProduct {returns z : Column ℝ} {n : ℕ} (hreturns : returns.size = n)
    (hz : z.size = n) : expectedReturn returns z = returns.vec n ⬝ᵥ z.vec n := by
  rw [expectedReturn, hreturns, hz, min_self, sumTo_real, sum_range]
  rfl

/-- With risk aversion and a definite covariance the cost has a bound. -/
theorem exists_le_costAt {inp : Inputs ℝ} {root : RootMethod ℝ} {epsZero : ℝ}
    (hinp : inp.Proper root epsZero) (hκ : 0 < inp.riskAversion)
    (hdefinite : inp.covariance.symmetrize.Definite) :
    ∃ bound, ∀ x, (inp.program root epsZero).conic.Feasible x →
      bound ≤ (inp.program root epsZero).conic.costAt x := by
  have horder := Covariance.order_symmetrize hinp.size_covariance
  obtain ⟨c, hc⟩ := hdefinite.exists_le hκ (inp.returns.vec inp.covariance.symmetrize.order)
  refine ⟨expectedReturn inp.returns inp.allocation - c, fun x hx => ?_⟩
  obtain ⟨t, u, bound, ht, hu, rfl⟩ := exists_stack hx.1
  have hafter := ht.size_newAllocation hinp.size_allocation
  have hle := hc ((t.newAllocation inp.allocation).vec inp.covariance.symmetrize.order)
  have hobjective : objective inp.returns inp.covariance inp.riskAversion
      (t.newAllocation inp.allocation) ≤ c := by
    rw [horder] at hle
    rwa [objective, expectedReturn_eq_dotProduct rfl hafter,
      Covariance.quadForm_symmetrize hinp.size_covariance hafter]
  have hcost := le_costAt_of_feasible hinp ht hu hx
  linarith

/-- Validated inputs have a program whose cost is known to have a bound or not to have
one. Without risk aversion and with a coupling that is not below zero, an asset whose
exchange gains more than it costs gives a ray, and the cost has no bound. With risk
aversion and a definite covariance there is no ray, and the cost has a bound. -/
theorem exists_program_ray_or_bound {inp : Inputs ℝ} {par : Settings ℝ} {n : ℕ}
    (hvalid : inp.validate par = .ok n) (root : RootMethod ℝ) (epsZero : ℝ)
    (horder : (root inp.covariance.symmetrize epsZero).order = inp.covariance.symmetrize.order) :
    ∃ p, inp.program? root epsZero = some p ∧
      (inp.riskAversion = 0 → 0 ≤ inp.coupling →
        (∃ i < n, 0 < (inp.coupling - 1) * inp.returns.coord i) →
        (∃ d, p.conic.IsRay d) ∧
          ∀ bound, ∃ x, p.conic.Feasible x ∧ p.conic.costAt x < bound) ∧
      (0 < inp.riskAversion → inp.covariance.symmetrize.Definite →
        root.ExactAt inp.covariance.symmetrize epsZero →
        (¬ ∃ d, p.conic.IsRay d) ∧ ∃ bound, ∀ x, p.conic.Feasible x → bound ≤ p.conic.costAt x) := by
  obtain ⟨hsized, rfl⟩ := sized_of_validate hvalid
  have hgrowth : ∀ i < inp.assets, 0 < inp.growth.coord i :=
    fun i hi => growth_pos hvalid (hsized.size_growth.symm ▸ hi)
  refine ⟨_, program?_eq_some root epsZero hsized, ?_, ?_⟩
  · rintro hκ hγ ⟨i, hi, hgain⟩
    have hstill : inp.still.Proper (fun m _ => m) epsZero := proper_still hsized hκ.ge hgrowth
    have hpoint := feasible_cheapest hstill (ofSize_noTrade _) (admits_noTrade hstill)
    have hfits := (sized_program hstill).consistent
    obtain ⟨d, hd⟩ := isRay_exchange hstill hκ hγ hi hgain
    rw [program_still hsized hκ horder] at hpoint hfits hd
    exact ⟨⟨d, hd⟩, fun bound => hd.exists_costAt_lt hfits hpoint bound⟩
  · intro hκ hdefinite hroot
    have hinp := proper_of_validate hvalid hdefinite.semidefinite hroot
    have hpoint := feasible_cheapest hinp (ofSize_noTrade inp) (admits_noTrade hinp)
    obtain ⟨bound, hbound⟩ := exists_le_costAt hinp hκ hdefinite
    refine ⟨fun ⟨d, hd⟩ => ?_, bound, hbound⟩
    -- A ray would lead from the point that does not trade to one below the bound.
    obtain ⟨x, hx, hlt⟩ := hd.exists_costAt_lt (sized_program hinp).consistent hpoint bound
    exact absurd hlt (not_lt.mpr (hbound x hx))

/-- The two assets when risk does not count and growth couples to twice of what is
taken. -/
noncomputable def carefreeTwo : Inputs ℝ := { twoAssets with riskAversion := 0, coupling := 1 + 1 }

theorem validate_carefreeTwo : carefreeTwo.validate Settings.default = .ok 2 := by
  refine validate_of_isDiagonal rfl isDiagonal_twoAssets entry_twoAssets_nonneg Nat.two_pos
    order_twoAssets rfl rfl le_rfl ?_ psdTol_default_nonneg
  simp [carefreeTwo, twoAssets]

theorem definite_twoAssets : twoAssets.covariance.symmetrize.Definite := by
  have hdiagonal : twoAssets.covariance.symmetrize.toMatrix 2 =
      diagonal fun i : Fin 2 => ((i : ℕ) : ℝ) + 1 :=
    SymMatrix.toMatrix_eq_diagonal fun i j => entry_twoAssets
  rw [SymMatrix.Definite, order_twoAssets, hdiagonal, posDef_diagonal_iff]
  intro i
  positivity

/-- For two assets the cost has no bound where taking the second one and adding it twice
gains without end, and has one where variance counts. -/
theorem exists_program_ray_or_bound_twoAssets :
    (carefreeTwo.validate Settings.default = .ok 2 ∧
      ∃ p, carefreeTwo.program? SymMatrix.sqrt 0 = some p ∧ (∃ d, p.conic.IsRay d) ∧
        ∀ bound, ∃ x, p.conic.Feasible x ∧ p.conic.costAt x < bound) ∧
    (twoAssets.validate Settings.default = .ok 2 ∧
      ∃ p, twoAssets.program? SymMatrix.sqrt 0 = some p ∧ (¬ ∃ d, p.conic.IsRay d) ∧
        ∃ bound, ∀ x, p.conic.Feasible x → bound ≤ p.conic.costAt x) := by
  have horder := (isRootOf_twoAssets 0).order_eq
  refine ⟨⟨validate_carefreeTwo, ?_⟩, validate_twoAssets, ?_⟩
  · obtain ⟨p, hp, hray, -⟩ :=
      exists_program_ray_or_bound validate_carefreeTwo SymMatrix.sqrt 0 horder
    refine ⟨p, hp, hray rfl (by norm_num [carefreeTwo]) ⟨1, Nat.one_lt_two, ?_⟩⟩
    norm_num [carefreeTwo, returns_twoAssets, Column.coord]
  · obtain ⟨p, hp, -, hbound⟩ :=
      exists_program_ray_or_bound validate_twoAssets SymMatrix.sqrt 0 horder
    refine ⟨p, hp, hbound ?_ definite_twoAssets fun _ => isRootOf_twoAssets 0⟩
    rw [riskAversion_twoAssets]
    exact one_half_pos

end Inputs

end Rebalancing
