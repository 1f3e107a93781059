-- SUMMARY: A whole rebalance with every size, read, write and split checked: it never breaks off on its own, whatever its inputs are.
import Mathlib
import Rebalancing.Proofs.Acceptance
import Rebalancing.Proofs.Checked.GrowthTree
import Rebalancing.Proofs.Checked.Inputs

/-!
# Checked rebalances

A rebalance is run here with every size that it relies on asserted and every entry and
cell read, written or split off by a checked operation. It stores the parts of its program
as matrices, and states the conic program by them. On all inputs it agrees with the
rebalance whose reads are total. So with a solver that gives an answer of the right length
or says how it failed, no inputs and no settings make it break off.
-/

namespace Rebalancing

namespace Checked

variable {F : Type} [Scalar F]

/-! ## Programs -/

/-- The parts of a program as it is stored. -/
structure StoredProgram (F : Type) where
  returns : RectMatrix F
  riskRoot : SymMatrix F
  riskNow : RectMatrix F
  treeMatrix : RectMatrix F
  treeConstants : RectMatrix F
  auxiliaries : ℕ

/-- The product of a symmetric matrix of order `n` with a column of its order. -/
def product? (m : SymMatrix F) (x : Column F) (n : ℕ) : Option (Column F) :=
  if x.size = m.order ∧ m.order = n then
    tabulate? n fun r =>
      sumFrom? 0 m.order fun c => do
        let cell ← m.cell? r c
        let entry ← x[c]?
        some (cell * entry)
  else none

/-- The program for one or more assets, when every part is about the same assets. -/
def buildBy? (root : RootMethod F) (returns : Column F) (covariance : SymMatrix F)
    (riskAversion coupling : F) (allocation growth : Column F) (epsZero : F) :
    Option (StoredProgram F) :=
  let n := returns.size
  if 0 < n && covariance.order = n && allocation.size = n && growth.size = n then do
    let riskRoot := (root covariance epsZero).scale (Scalar.sqrt (riskAversion + riskAversion))
    let riskNow ← product? riskRoot allocation n
    let tree : GrowthTree F := { growth, coupling, floor := growth.geometricMean }
    let filling ← tree.fill?
    some {
      returns := .ofColumn returns
      riskRoot
      riskNow := .ofColumn riskNow
      treeMatrix := filling.matrix
      treeConstants := filling.constants
      auxiliaries := tree.inner }
  else none

namespace StoredProgram

/-- The cost `c`, for returns in one column. -/
def cost? (p : StoredProgram F) : Option (Operator F) :=
  let n := p.returns.rows
  if p.returns.cols = 1 then
    some {
      rows := 2 * n + p.auxiliaries + 1
      cols := 1
      blocks :=
        [{ top := 0, left := 0, negated := false, body := .rect p.returns },
         { top := n, left := 0, negated := true, body := .rect p.returns },
         { top := 2 * n + p.auxiliaries, left := 0, negated := false, body := .unit 1 }] }
  else none

/-- The matrix `A`, for a tree whose variables begin with the trade. -/
def system? (p : StoredProgram F) : Option (Operator F) :=
  let n := p.riskRoot.order
  let width := p.treeMatrix.cols
  let auxiliaries := width - 2 * n
  let orthant := (2 + n) + p.treeMatrix.rows
  if 2 * n ≤ width then
    some {
      rows := orthant + 2 * n
      cols := 2 * n + auxiliaries + 1
      blocks :=
        [{ top := 2 + n, left := 0, negated := false, body := .rect p.treeMatrix },
         { top := 2, left := 0, negated := false, body := .sym p.riskRoot },
         { top := 2, left := n, negated := true, body := .sym p.riskRoot },
         { top := orthant, left := 0, negated := true, body := .unit n },
         { top := orthant + n, left := n, negated := true, body := .unit n },
         { top := 1, left := 2 * n + auxiliaries, negated := true, body := .unit 1 }] }
  else none

/-- The right-hand side `b`, for a risk and constants in one column each. -/
def rightHand? (p : StoredProgram F) : Option (Operator F) :=
  let n := p.riskNow.rows
  let one : Block F := { top := 0, left := 0, negated := false, body := .unit 1 }
  let risk : Block F := { top := 2, left := 0, negated := false, body := .rect p.riskNow }
  let growth : Block F :=
    { top := 2 + n, left := 0, negated := false, body := .rect p.treeConstants }
  if p.riskNow.cols = 1 ∧ p.treeConstants.cols = 1 then
    some {
      rows := (2 + n) + p.treeConstants.rows + 2 * n
      cols := 1
      blocks := [risk, growth, one]
      sumOrder := [one, risk, growth] }
  else none

/-- The program in the form that solvers take. -/
def conic? (p : StoredProgram F) : Option (ConicProgram F) := do
  let n := p.returns.rows
  let cost ← p.cost?
  let system ← p.system?
  let rightHand ← p.rightHand?
  some {
    cost
    system
    rightHand
    cone := {
      rotated := (2 + n) :: List.replicate p.auxiliaries 3
      orthant := 1 + 2 * n } }

/-- What is reported of a program that was built. -/
def event (p : StoredProgram F) : Event F :=
  let n := p.returns.rows
  .built n p.auxiliaries ((2 + n) + p.treeConstants.rows + 2 * n)

/-- Split a column at an index that is not beyond its end. -/
def splitAt? (x : Column F) (i : ℕ) : Option (Column F × Column F) :=
  if i ≤ x.size then some (x.extract 0 i, x.extract i) else none

/-- The columns `δ` and `λ` of a point of the program. -/
def split? (p : StoredProgram F) (x : Column F) : Option (Column F × Column F) :=
  let n := p.returns.rows
  if x.size = 2 * n + p.auxiliaries + 1 then do
    let (delta, rest) ← splitAt? x n
    let (lam, _) ← splitAt? rest n
    some (delta, lam)
  else none

/-- What is stored of a program. -/
def ofProgram (p : TradeProgram F) : StoredProgram F where
  returns := .ofColumn p.returns
  riskRoot := p.riskRoot
  riskNow := .ofColumn p.riskNow
  treeMatrix := p.tree.matrix
  treeConstants := .ofColumn p.tree.constants
  auxiliaries := p.auxiliaries

end StoredProgram

/-! ## Testing an answer -/

/-- What speaks against a growth proxy that a trade leads to. -/
def growthLoss? (eps : F) (before after : Column F) : Option (Option (Event F)) :=
  match after.findIdx? fun e => !(0 < e : Bool) with
  | some i => after[i]?.map fun e => some (.growthRefused i e)
  | none =>
    let g₀ := before.geometricMean
    let g := after.geometricMean
    some (if g₀ - eps * Scalar.max 1 g₀ ≤ g then none else some (.growthFell g₀ g))

/-- Test a trade whose entries are not below zero, and value it. -/
def appraise? (inp : Inputs F) (eps : F) (trade : Trade F) :
    Option (Except (RebalanceError F) (Decision F) × List (Event F)) := do
  let growth ← trade.newGrowth? inp.growth inp.coupling
  match ← growthLoss? eps inp.growth growth with
  | some loss => some (.error .invalidSolution, [loss])
  | none =>
    let after ← trade.newAllocation? inp.allocation
    let objective ← objective? inp.returns inp.covariance inp.riskAversion after
    let decision : Decision F := { trade, objective }
    some (.ok decision, [.decided inp.assets decision.status objective])

/-- Turn the two columns of a solver's answer into a decision. -/
def accept? (inp : Inputs F) (eps : F) (delta lam : Column F) :
    Option (Except (RebalanceError F) (Decision F) × List (Event F)) :=
  match clip .delta eps delta with
  | (none, log) => some (.error .invalidSolution, log)
  | (some delta, log) =>
    match clip .lam eps lam with
    | (none, log') => some (.error .invalidSolution, log ++ log')
    | (some lam, log') =>
      (appraise? inp eps { delta, lam }).map fun (result, log'') => (result, log ++ log' ++ log'')

/-! ## Rebalancing -/

/-- Rebalance by a solver and a method for the root of the covariance. -/
def rebalanceBy? (root : RootMethod F) (par : Settings F) (solver : ConicSolver F)
    (inp : Inputs F) : Option (Report F) := do
  match ← validate? inp par with
  | .error e =>
    some { result := .error (.invalidInput e), calls := 0, log := [.refused e] }
  | .ok _ =>
    let covariance ← symmetrize? inp.covariance
    let program ← buildBy? root inp.returns covariance inp.riskAversion inp.coupling
      inp.allocation inp.growth par.solver.epsZero
    let conic ← program.conic?
    match ← solver par.solver conic with
    | .error e =>
      some { result := .error (.ofSolver e), calls := 1, log := [program.event, .solverFailed e] }
    | .ok x =>
      let (delta, lam) ← program.split? x
      let (result, log) ← accept? inp par.epsClip delta lam
      some { result, calls := 1, log := program.event :: log }

/-- Rebalance by a solver, with the root of the covariance taken through its spectrum. -/
def rebalance? : Settings F → ConicSolver F → Inputs F → Option (Report F) :=
  rebalanceBy? SymMatrix.sqrt

/-! ## Programs agree -/

section Programs

theorem product?_eq_some {m : SymMatrix F} {x : Column F} {n : ℕ} (hm : m.order = n)
    (hx : x.size = n) :
    product? m x n = some (Column.tabulate n fun r => m.rowDot r x 0) := by
  rw [product?, if_pos ⟨hx.trans hm.symm, hm⟩]
  refine tabulate?_eq_some fun r hr => ?_
  refine sumFrom?_eq_some (fun c hc => ?_) 0
  rw [SymMatrix.cell?_eq_some (hr.trans_eq hm.symm) hc,
    Column.getElem?_eq_some (hc.trans_eq (hm.trans hx.symm)), Nat.zero_add]
  rfl

/-- What is built is the program with its parts stored as matrices, and nothing is built
where there is no program. -/
theorem buildBy?_eq {root : RootMethod F} {covariance : SymMatrix F} {epsZero : F}
    (horder : (root covariance epsZero).order = covariance.order) (returns : Column F) (κ γ : F)
    (allocation growth : Column F) :
    buildBy? root returns covariance κ γ allocation growth epsZero =
      (TradeProgram.buildBy? root returns covariance κ γ allocation growth epsZero).map
        .ofProgram := by
  rw [buildBy?, TradeProgram.buildBy?]
  split
  next hsizes =>
    simp only [Bool.and_eq_true, decide_eq_true_eq] at hsizes
    obtain ⟨⟨⟨hpos, hcovariance⟩, hallocation⟩, hgrowth⟩ := hsizes
    have hroot : ((root covariance epsZero).scale (Scalar.sqrt (κ + κ))).order = returns.size :=
      (SymMatrix.order_ofFn _ _).trans (horder.trans hcovariance)
    have htree : 0 < (TradeProgram.buildBy root returns covariance κ γ allocation growth
        epsZero).tree.assets := hpos.trans_eq hgrowth.symm
    have hfill := GrowthTree.fill?_eq_some htree
    simp only [TradeProgram.buildBy] at hfill
    simp only [product?_eq_some hroot hallocation, hfill, Option.bind_eq_bind, Option.bind_some]
    rfl
  next => rfl

variable {inp : Inputs F} (hinp : inp.Sized) {root : RootMethod F} {epsZero : F}

include hinp

/-- What is built for inputs about the same assets is their program. -/
theorem buildBy?_eq_some
    (horder : (root inp.covariance.symmetrize epsZero).order = inp.covariance.symmetrize.order) :
    buildBy? root inp.returns inp.covariance.symmetrize inp.riskAversion inp.coupling
        inp.allocation inp.growth epsZero =
      some (.ofProgram (inp.program root epsZero)) := by
  have hprogram := Inputs.program?_eq_some root epsZero hinp
  rw [Inputs.program?, Covariance.symmetrize?_eq_some hinp.size_covariance] at hprogram
  exact (buildBy?_eq horder ..).trans (congrArg (Option.map StoredProgram.ofProgram) hprogram)

omit hinp in
/-- The stored parts state the conic program. -/
theorem conic?_ofProgram {p : TradeProgram F} (hroot : p.riskRoot.order = p.assets)
    (hnow : p.riskNow.size = p.assets) (htree : p.tree.assets = p.assets) :
    (StoredProgram.ofProgram p).conic? = some p.conic := by
  have hwidth : p.tree.matrix.cols = 2 * p.assets + p.auxiliaries := by
    rw [GrowthTree.cols_matrix, GrowthTree.cols, htree]
    rfl
  have hsystem : (StoredProgram.ofProgram p).system? = some p.system := by
    rw [StoredProgram.system?]
    simp only [StoredProgram.ofProgram, hroot, hwidth, Nat.add_sub_cancel_left, Nat.le_add_right,
      if_true]
    rfl
  have hcost : (StoredProgram.ofProgram p).cost? = some p.cost := rfl
  have hright : (StoredProgram.ofProgram p).rightHand? = some p.rightHand := by
    rw [StoredProgram.rightHand?]
    simp only [StoredProgram.ofProgram, RectMatrix.rows_ofColumn, RectMatrix.cols_ofColumn, hnow,
      GrowthTree.size_constants, and_self, if_true]
    rfl
  rw [StoredProgram.conic?, hcost, hsystem, hright]
  rfl

omit hinp in
theorem event_ofProgram (p : TradeProgram F) : (StoredProgram.ofProgram p).event = p.event := by
  simp only [StoredProgram.event, StoredProgram.ofProgram, RectMatrix.rows_ofColumn,
    GrowthTree.size_constants]
  rfl

end Programs

/-! ## Answers agree -/

theorem split?_ofProgram (p : TradeProgram F) (x : Column F) :
    (StoredProgram.ofProgram p).split? x = p.split? x := by
  have hcols : p.cols = 2 * p.assets + p.auxiliaries + 1 := rfl
  have hreturns : (StoredProgram.ofProgram p).returns.rows = p.assets := rfl
  have hauxiliaries : (StoredProgram.ofProgram p).auxiliaries = p.auxiliaries := rfl
  rw [StoredProgram.split?, TradeProgram.split?, hreturns, hauxiliaries, hcols]
  split
  · have hfirst : p.assets ≤ x.size := by omega
    have hsecond : p.assets ≤ (x.extract p.assets).size := by
      rw [Array.size_extract]
      omega
    have hdelta : x.slice 0 p.assets = x.extract 0 p.assets := by
      rw [Column.slice_eq_extract (by omega), Nat.zero_add]
    have hlam : x.slice p.assets p.assets = (x.extract p.assets).extract 0 p.assets := by
      rw [Column.slice_eq_extract (by omega), Array.extract_extract, Nat.add_zero,
        Nat.min_eq_left (by omega)]
    rw [hdelta, hlam]
    simp only [StoredProgram.splitAt?, if_pos hfirst, if_pos hsecond, Option.bind_eq_bind,
      Option.bind_some]
  · rfl

theorem growthLoss?_eq (eps : F) (before after : Column F) :
    growthLoss? eps before after = some (Rebalancing.growthLoss? eps before after) := by
  unfold growthLoss? Rebalancing.growthLoss?
  cases hfirst : after.findIdx? fun e => !(0 < e : Bool) with
  | none => rfl
  | some i =>
    obtain ⟨hi, -⟩ := Array.findIdx?_eq_some_iff_getElem.mp hfirst
    simp only [Column.getElem?_eq_some hi, Option.map_some]

theorem appraise?_eq (inp : Inputs F) (eps : F) (trade : Trade F) :
    appraise? inp eps trade = appraise inp eps trade := by
  simp only [appraise?, growthLoss?_eq, objective?_eq, Option.bind_eq_bind, Option.bind_some]
  rfl

theorem accept?_eq (inp : Inputs F) (eps : F) (delta lam : Column F) :
    accept? inp eps delta lam = accept inp eps delta lam := by
  simp only [accept?, appraise?_eq]
  rfl

/-! ## Rebalances agree -/

/-- On all inputs, and with any solver, the checked rebalance is the rebalance. -/
theorem rebalanceBy?_eq {root : RootMethod F} (horder : ∀ m eps, (root m eps).order = m.order)
    (par : Settings F) (solver : ConicSolver F) (inp : Inputs F) :
    rebalanceBy? root par solver inp = rebalanceBy root par solver inp := by
  rw [rebalanceBy?, validate?_eq, Option.bind_eq_bind, Option.bind_some]
  cases hvalid : inp.validate par with
  | error e => exact (rebalanceBy_of_error hvalid).symm
  | ok n =>
    have hinp := (Inputs.sized_of_validate hvalid).1
    let p := inp.program root par.solver.epsZero
    have hsquare := symmetrize?_eq_some hinp.size_covariance
    have hbuild := buildBy?_eq_some hinp (horder inp.covariance.symmetrize par.solver.epsZero)
    have hroot : p.riskRoot.order = p.assets :=
      (SymMatrix.order_ofFn _ _).trans
        ((horder _ _).trans (Covariance.order_symmetrize hinp.size_covariance))
    have hconic := conic?_ofProgram hroot (Column.size_tabulate _ _) hinp.size_growth
    rw [rebalanceBy_of_ok hvalid]
    simp only [hsquare, hbuild, hconic, Option.bind_eq_bind, Option.bind_some, p]
    cases solver par.solver (inp.program root par.solver.epsZero).conic with
    | none => rfl
    | some answer =>
      cases answer with
      | error e => rw [Option.bind_some, Option.bind_some, conclude, event_ofProgram]
      | ok x =>
        simp only [Option.bind_some, conclude, split?_ofProgram, event_ofProgram, accept?_eq]
        rfl

end Checked

/-! ## Inputs that are well formed -/

/-- Sizes that match, finite values, and the signs that a program relies on. -/
structure Inputs.WellFormed {F : Type} [Scalar F] (inp : Inputs F) : Prop extends inp.Sized where
  finite_returns : ∀ e ∈ inp.returns, Scalar.isFinite e = true
  finite_covariance : ∀ e ∈ inp.covariance.cells, Scalar.isFinite e = true
  finite_riskAversion : Scalar.isFinite inp.riskAversion = true
  finite_coupling : Scalar.isFinite inp.coupling = true
  finite_allocation : ∀ e ∈ inp.allocation, Scalar.isFinite e = true
  finite_growth : ∀ e ∈ inp.growth, Scalar.isFinite e = true
  not_riskAversion_lt : ¬ inp.riskAversion < 0
  not_growth_le : ∀ e ∈ inp.growth, ¬ e ≤ 0

namespace Checked

variable {F : Type} [Scalar F]

theorem wellFormed_of_validate {inp : Inputs F} {par : Settings F} {n : ℕ}
    (h : inp.validate par = .ok n) : inp.WellFormed := by
  have hfault := (Inputs.validate_eq_ok_iff.mp h).2
  have hsized := Inputs.sized_of_fault?_eq_none hfault
  have hsign := Inputs.not_lt_zero_of_fault?_eq_none hfault
  have hgrowth := Inputs.growth_not_le_zero_of_fault?_eq_none hfault
  simp only [Inputs.fault?, Option.orElse_eq_none, Inputs.finiteFault?_eq_none_iff] at hfault
  obtain ⟨-, -, -, -, hreturns, hcovariance, hκ, hγ, hallocation, hfinite, -⟩ := hfault
  exact ⟨hsized, hreturns, hcovariance, hκ _ (by simp), hγ _ (by simp), hallocation, hfinite, hsign,
    hgrowth⟩

/-- On validated inputs every answer of the right length, and every failure, leads to a
report. -/
theorem exists_report_of_answer {root : RootMethod F} {par : Settings F} {solver : ConicSolver F}
    {inp : Inputs F} {n : ℕ} (hvalid : inp.validate par = .ok n)
    {answer : Except SolverError (Column F)}
    (hanswer : solver par.solver (inp.program root par.solver.epsZero).conic = some answer)
    (hsize : ∀ x, answer = .ok x → x.size = (inp.program root par.solver.epsZero).cols) :
    ∃ report, rebalanceBy root par solver inp = some report := by
  cases answer with
  | error e =>
    rw [rebalanceBy_of_ok hvalid, hanswer]
    exact ⟨_, rfl⟩
  | ok x =>
    obtain ⟨report, hreport, -⟩ := rebalanceBy_of_answer hvalid hanswer (hsize x rfl)
    exact ⟨report, hreport⟩

/-- A rebalance never breaks off on its own. For inputs of any sizes and any values, any
settings, and a solver that says how it failed or answers with a column of the length of
the variables, the checked rebalance leads to a report, and it is the report of the
rebalance. Inputs that are refused, and with them all that are not well formed, are
reported as invalid without a call of the solver. -/
theorem exists_report (par : Settings F) (solver : ConicSolver F) (inp : Inputs F)
    (hsolver : ∀ p, inp.program? SymMatrix.sqrt par.solver.epsZero = some p →
      ∃ answer, solver par.solver p.conic = some answer ∧
        ∀ x, answer = .ok x → x.size = p.conic.system.cols) :
    ∃ report, rebalance? par solver inp = some report ∧
      Rebalancing.rebalance par solver inp = some report ∧
      (∀ e, inp.validate par = .error e →
        report.result = .error (.invalidInput e) ∧ report.calls = 0) ∧
      (¬ inp.WellFormed →
        ∃ e, report.result = .error (.invalidInput e) ∧ report.calls = 0) := by
  have heq : rebalance? par solver inp = Rebalancing.rebalance par solver inp :=
    rebalanceBy?_eq SymMatrix.order_sqrt par solver inp
  rw [heq]
  cases hvalid : inp.validate par with
  | error e =>
    refine ⟨_, rebalanceBy_of_error hvalid, rebalanceBy_of_error hvalid, ?_, fun _ => ⟨e, rfl, rfl⟩⟩
    intro e' he
    cases he
    exact ⟨rfl, rfl⟩
  | ok n =>
    have hwell := wellFormed_of_validate hvalid
    obtain ⟨answer, hanswer, hsize⟩ :=
      hsolver _ (Inputs.program?_eq_some SymMatrix.sqrt par.solver.epsZero hwell.toSized)
    obtain ⟨report, hreport⟩ := exists_report_of_answer hvalid hanswer hsize
    refine ⟨report, hreport, hreport, fun e he => ?_, absurd hwell⟩
    cases he

section TwoAssets

open Inputs

/-- Two assets with an answer that is taken, and two assets with the growth proxy of one. -/
theorem exists_report_twoAssets :
    (∃ report d, rebalance? Settings.default (fun _ _ => some (.ok (swapTwo.stack #[0] 0)))
        twoAssets = some report ∧ report.result = .ok d) ∧
    ∃ report e, rebalance? Settings.default (fun _ _ => some (.error .excessIter))
        { twoAssets with growth := #[1] } = some report ∧
      report.result = .error (.invalidInput e) ∧ report.calls = 0 := by
  constructor
  · let solver : ConicSolver ℝ := fun _ _ => some (.ok (swapTwo.stack #[0] 0))
    have hanswer : solver Settings.default.solver
        (twoAssets.program SymMatrix.sqrt Settings.default.solver.epsZero).conic =
          some (.ok (swapTwo.stack #[0] 0)) := rfl
    have hsolver : ∀ p, twoAssets.program? SymMatrix.sqrt Settings.default.solver.epsZero = some p →
        ∃ answer, solver Settings.default.solver p.conic = some answer ∧
          ∀ x, answer = .ok x → x.size = p.conic.system.cols := by
      intro p hp
      obtain rfl := Option.some.inj
        ((program?_eq_some _ _ (proper_twoAssets 0).toSized).symm.trans hp)
      refine ⟨_, hanswer, fun x hx => ?_⟩
      rw [← Except.ok.inj hx]
      rfl
    obtain ⟨report, hchecked, hreport, -⟩ :=
      exists_report Settings.default solver twoAssets hsolver
    obtain ⟨report', hreport', hok, -⟩ := rebalanceBy_of_answer validate_twoAssets hanswer rfl
    obtain rfl := Option.some.inj (hreport'.symm.trans hreport)
    exact ⟨_, _, hchecked, hok passes_swapTwo⟩
  · obtain ⟨report, hchecked, -, -, hrefused⟩ := exists_report Settings.default
      (fun _ _ => some (.error .excessIter)) { twoAssets with growth := #[1] }
      fun _ _ => ⟨_, rfl, nofun⟩
    have hgrowth : ¬ Inputs.WellFormed { twoAssets with growth := #[(1 : ℝ)] } := by
      intro hwell
      exact absurd hwell.size_growth (by decide)
    obtain ⟨e, he, hcalls⟩ := hrefused hgrowth
    exact ⟨report, e, hchecked, he, hcalls⟩

end TwoAssets

end Checked

end Rebalancing
