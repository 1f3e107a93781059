-- SUMMARY: The methods of every program that is built act by the block matrices of the program, and their absolute sums are those of its dense forms.
import Mathlib
import Rebalancing.Proofs.Checked.Agreement
import Rebalancing.Proofs.TradeProgram.AbsoluteSums

/-!
# Methods of programs that are built

Whatever is built for one or more assets has methods that agree with the block operators of
its program. So what is known of these carries over: the products are by one matrix and its
transpose, and the sums by which a solver scales rows and columns are those of this matrix.
-/

open Finset Matrix

namespace Rebalancing

namespace TradeProgram

open Checked

/-! ## What is built -/

section Built

variable {F : Type} [Scalar F] {root : RootMethod F} {returns : Column F}
  {covariance : SymMatrix F} {κ γ epsZero : F} {allocation growth : Column F}

/-- A program that is built is about one or more assets, and has all its parts about the
same ones. -/
theorem sized_of_buildBy? (horder : (root covariance epsZero).order = covariance.order)
    {p : TradeProgram F}
    (h : buildBy? root returns covariance κ γ allocation growth epsZero = some p) :
    0 < p.assets ∧ p.Sized := by
  obtain ⟨hsizes, hp⟩ := Option.ite_none_right_eq_some.mp h
  simp only [Bool.and_eq_true, decide_eq_true_eq] at hsizes
  obtain ⟨⟨⟨hpos, hcovariance⟩, -⟩, hgrowth⟩ := hsizes
  have hbuilt := (Option.some.inj hp).symm
  refine ⟨?_, sized_of_eq_buildBy hbuilt (horder.trans hcovariance) hgrowth⟩
  rw [hbuilt]
  exact hpos

/-- The methods of what is built are those of the block operators of the program. -/
theorem methods_of_buildBy? (laws : Scalar.Plain F)
    (horder : (root covariance epsZero).order = covariance.order) {s : StoredProgram F}
    (h : Checked.buildBy? root returns covariance κ γ allocation growth epsZero = some s) :
    ∃ p, buildBy? root returns covariance κ γ allocation growth epsZero = some p ∧
      s.costParts.methods = p.conic.cost.methods ∧
      s.systemParts.methods = p.conic.system.methods ∧
      s.rightHandParts.methods = p.conic.rightHand.methods := by
  rw [buildBy?_eq horder] at h
  obtain ⟨p, hp, rfl⟩ := Option.map_eq_some_iff.mp h
  obtain ⟨hpos, hsized⟩ := sized_of_buildBy? horder hp
  exact ⟨p, hp, methods_costParts hpos laws, methods_systemParts hpos laws hsized,
    methods_rightHandParts hpos laws hsized⟩

/-- The methods of what is built on machine floats are those of the block operators that
run, bit for bit. -/
theorem methods_float {returns : Column Float} {covariance : SymMatrix Float}
    {κ γ epsZero : Float} {allocation growth : Column Float} {s : StoredProgram Float}
    (h : Checked.buildBy? SymMatrix.sqrt returns covariance κ γ allocation growth epsZero =
      some s) :
    ∃ p, build? returns covariance κ γ allocation growth epsZero = some p ∧
      s.costParts.methods = p.conic.cost.methods ∧
      s.systemParts.methods = p.conic.system.methods ∧
      s.rightHandParts.methods = p.conic.rightHand.methods :=
  methods_of_buildBy? Scalar.plain_float (covariance.order_sqrt epsZero) h

end Built

/-! ## Matrices -/

section Building

variable {returns : Column ℝ} {covariance : SymMatrix ℝ} {allocation growth : Column ℝ}

/-- For one or more assets whose parts are about the same assets there is a program, and it
is built. The methods of what is built are those of the block operators of the program,
and act by the block matrices of the returns, the scaled root of the covariance, the rows
of the growth tree and the identity. The sides of these matrices match. -/
theorem exists_actsBy (hpos : 0 < returns.size) (hcovariance : covariance.order = returns.size)
    (hallocation : allocation.size = returns.size) (hgrowth : growth.size = returns.size)
    (κ γ epsZero : ℝ) :
    ∃ p s, build? returns covariance κ γ allocation growth epsZero = some p ∧
      Checked.buildBy? SymMatrix.sqrt returns covariance κ γ allocation growth epsZero = some s ∧
      p.assets = returns.size ∧
      p.tree = { growth, coupling := γ, floor := growth.geometricMean } ∧
      (s.costParts.methods = p.conic.cost.methods ∧
        s.systemParts.methods = p.conic.system.methods ∧
        s.rightHandParts.methods = p.conic.rightHand.methods) ∧
      (let S := √(2 * κ) • (covariance.sqrt epsZero).toMatrix p.assets
      s.costParts.methods.ActsBy (p.costMatrix (returns.vec p.assets)) ∧
        s.systemParts.methods.ActsBy (p.systemMatrix S p.treeMatrix) ∧
        s.rightHandParts.methods.ActsBy (p.rightHandMatrix (S *ᵥ allocation.vec p.assets)
          (p.tree.constants.vec p.tree.rows))) ∧
      ∃ rows cols, s.systemParts.size? = some (rows, cols) ∧
        s.rightHandParts.size? = some (rows, 1) ∧ s.costParts.size? = some (cols, 1) := by
  have horder := covariance.order_sqrt epsZero
  have hroot : (covariance.sqrt epsZero).order = returns.size := horder.trans hcovariance
  obtain ⟨p, hp⟩ :
      ∃ p, p = buildBy SymMatrix.sqrt returns covariance κ γ allocation growth epsZero := ⟨_, rfl⟩
  have hsized := sized_of_eq_buildBy hp hroot hgrowth
  have hreturns : p.returns = returns := hp ▸ rfl
  have hassets : p.assets = returns.size := hp ▸ rfl
  have hbuild : build? returns covariance κ γ allocation growth epsZero = some p := by
    simp [build?, buildBy?, hpos, hcovariance, hallocation, hgrowth, hp]
  have hstored : Checked.buildBy? SymMatrix.sqrt returns covariance κ γ allocation growth epsZero =
      some (.ofProgram p) :=
    (buildBy?_eq horder ..).trans (congrArg (Option.map StoredProgram.ofProgram) hbuild)
  have hcost := methods_costParts (hpos.trans_eq hassets.symm) Scalar.plain_real
  have hsystem := methods_systemParts (hpos.trans_eq hassets.symm) Scalar.plain_real hsized
  have hright := methods_rightHandParts (hpos.trans_eq hassets.symm) Scalar.plain_real hsized
  refine ⟨p, _, hbuild, hstored, hassets, hp ▸ rfl, ⟨hcost, hsystem, hright⟩, ⟨?_, ?_, ?_⟩, ?_⟩
  · rw [hcost, ← hreturns]
    exact actsBy_cost
  · rw [hsystem, ← toMatrix_riskRoot hp hroot]
    exact actsBy_system hsized
  · rw [hright, ← toMatrix_riskRoot hp hroot, ← vec_riskNow hp hroot]
    exact actsBy_rightHand hsized
  · exact ⟨p.rows, p.cols, congrArg Methods.size? hsystem, congrArg Methods.size? hright,
      congrArg Methods.size? hcost⟩

open Inputs in
/-- What is built for two assets has twelve rows and six variables, and products on columns
of these lengths. -/
theorem exists_actsBy_twoAssets :
    0 < twoAssets.returns.size ∧ twoAssets.covariance.symmetrize.order = twoAssets.returns.size ∧
      twoAssets.allocation.size = twoAssets.returns.size ∧
      twoAssets.growth.size = twoAssets.returns.size ∧
      ∃ s, Checked.buildBy? SymMatrix.sqrt twoAssets.returns twoAssets.covariance.symmetrize
          twoAssets.riskAversion twoAssets.coupling twoAssets.allocation twoAssets.growth 0 =
            some s ∧
        s.systemParts.size? = some (12, 6) ∧
        ∀ x y : Column ℝ, x.size = 6 → y.size = 12 →
          (∃ z, s.systemParts.mulAdd? 2 x 3 y = some z ∧ z.size = 12) ∧
          ∃ z, s.systemParts.transMulAdd? 2 y 3 x = some z ∧ z.size = 6 := by
  have hpos : 0 < twoAssets.returns.size := Nat.two_pos
  have hallocation : twoAssets.allocation.size = twoAssets.returns.size := rfl
  have hgrowth : twoAssets.growth.size = twoAssets.returns.size := rfl
  obtain ⟨p, s, -, hs, hassets, htree, -, ⟨-, hsystem, -⟩, -⟩ :=
    exists_actsBy hpos order_twoAssets hallocation hgrowth twoAssets.riskAversion
      twoAssets.coupling 0
  have hrows : p.rows = 12 := by
    rw [rows, hassets, htree]
    rfl
  have hcols : p.cols = 6 := by
    rw [cols, auxiliaries, hassets, htree]
    rfl
  have hsize : s.systemParts.size? = some (p.rows, p.cols) := hsystem.size_eq
  rw [hrows, hcols] at hsize
  refine ⟨hpos, order_twoAssets, hallocation, hgrowth, s, hs, hsize, fun x y hx hy => ?_⟩
  obtain ⟨z, hz, hrow, -⟩ := hsystem.mulAdd 2 x 3 y (hx.trans hcols.symm) (hy.trans hrows.symm)
  obtain ⟨w, hw, hcol, -⟩ :=
    hsystem.transMulAdd 2 y 3 x (hy.trans hrows.symm) (hx.trans hcols.symm)
  exact ⟨⟨z, hz, hrow.trans hrows⟩, w, hw, hcol.trans hcols⟩

end Building

/-! ## Absolute sums -/

/-- The methods of everything that is built are those of the block operators of a program.
Each of the cost, the system and the right-hand side has a dense form, by the products with
the unit columns. On columns of its sides its absolute sums have a result, and add to it
the absolute values in the rows and columns of the dense form. -/
theorem exists_sumsDense {returns : Column ℝ} {covariance : SymMatrix ℝ} {κ γ epsZero : ℝ}
    {allocation growth : Column ℝ} {s : StoredProgram ℝ}
    (h : Checked.buildBy? SymMatrix.sqrt returns covariance κ γ allocation growth epsZero =
      some s) :
    ∃ p, build? returns covariance κ γ allocation growth epsZero = some p ∧
      (s.costParts.methods = p.conic.cost.methods ∧
        s.systemParts.methods = p.conic.system.methods ∧
        s.rightHandParts.methods = p.conic.rightHand.methods) ∧
      (∃ dense, s.costParts.methods.SumsDense p.cols 1 dense) ∧
      (∃ dense, s.systemParts.methods.SumsDense p.rows p.cols dense) ∧
      ∃ dense, s.rightHandParts.methods.SumsDense p.rows 1 dense := by
  have horder := covariance.order_sqrt epsZero
  obtain ⟨p, hp, hcost, hsystem, hright⟩ := methods_of_buildBy? Scalar.plain_real horder h
  obtain ⟨-, hsized⟩ := sized_of_buildBy? horder hp
  refine ⟨p, hp, ⟨hcost, hsystem, hright⟩, ?_, ?_, ?_⟩
  · rw [hcost]
    exact ⟨_, tiled_cost.sumsDense⟩
  · rw [hsystem]
    exact ⟨_, (tiled_system hsized).sumsDense⟩
  · rw [hright]
    exact ⟨_, (tiled_rightHand hsized).sumsDense⟩

section TwoAssets

open Inputs

theorem build?_twoAssets :
    build? twoAssets.returns twoAssets.covariance.symmetrize twoAssets.riskAversion
        twoAssets.coupling twoAssets.allocation twoAssets.growth 0 =
      some (twoAssets.program SymMatrix.sqrt 0) := by
  have hcovariance : twoAssets.covariance.symmetrize.order = twoAssets.returns.size :=
    order_twoAssets
  have hallocation : twoAssets.allocation.size = twoAssets.returns.size := rfl
  have hgrowth : twoAssets.growth.size = twoAssets.returns.size := rfl
  have hpos : 0 < twoAssets.returns.size := Nat.two_pos
  simp [build?, buildBy?, hpos, hcovariance, hallocation, hgrowth, program]

/-- The last column of the system holds the bound on the variance and nothing else. -/
theorem sum_bound_twoAssets :
    ∑ r ∈ range 12, |(twoAssets.program SymMatrix.sqrt 0).system.entry r 5| = 1 := by
  have hassets : (twoAssets.program SymMatrix.sqrt 0).assets = 2 := rfl
  have hinner : (twoAssets.program SymMatrix.sqrt 0).auxiliaries = 1 := rfl
  have hrows : (twoAssets.program SymMatrix.sqrt 0).tree.rows = 4 := rfl
  have hsized := (sized_of_buildBy? (SymMatrix.order_sqrt _ _) build?_twoAssets).2
  simp only [entry_system hsized, hassets, hinner, hrows]
  simp [sum_range_succ]

/-- In what is built for two assets the bound on the variance has a column whose absolute
values add up to one. -/
theorem exists_sumsDense_twoAssets :
    ∃ s, Checked.buildBy? SymMatrix.sqrt twoAssets.returns twoAssets.covariance.symmetrize
        twoAssets.riskAversion twoAssets.coupling twoAssets.allocation twoAssets.growth 0 =
          some s ∧
      s.systemParts.size? = some (12, 6) ∧
      ∀ x : Column ℝ, x.size = 6 →
        ∃ z, s.systemParts.addAbsCols? x = some z ∧ z.coord 5 = x.coord 5 + 1 := by
  have hbuilt := (buildBy?_eq (SymMatrix.order_sqrt twoAssets.covariance.symmetrize 0) ..).trans
    (congrArg (Option.map StoredProgram.ofProgram) build?_twoAssets)
  obtain ⟨p, hp, ⟨-, hmethods, -⟩, -, ⟨dense, hsystem⟩, -⟩ := exists_sumsDense hbuilt
  obtain rfl := Option.some.inj (hp.symm.trans build?_twoAssets)
  refine ⟨_, hbuilt, hsystem.size_eq, fun x hx => ?_⟩
  have hdense := hsystem.dense_eq
  rw [hmethods] at hdense
  obtain rfl := Option.some.inj ((Operator.dense?_methods _).symm.trans hdense)
  obtain ⟨z, hz, -, hsum⟩ := hsystem.addAbsCols x hx
  have hlt : 5 < (twoAssets.program SymMatrix.sqrt 0).system.dense.length := by
    rw [Operator.length_dense]
    exact Nat.lt_succ_self 5
  have htiled := tiled_system (sized_of_buildBy? (SymMatrix.order_sqrt _ _) build?_twoAssets).2
  refine ⟨z, hz, (hsum 5 hlt).trans (congrArg (x.coord 5 + ·) ?_)⟩
  rw [← sum_bound_twoAssets]
  exact sum_congr rfl fun r hr => congrArg abs (Operator.coord_dense htiled (mem_range.mp hr) hlt)

end TwoAssets

end TradeProgram

end Rebalancing
