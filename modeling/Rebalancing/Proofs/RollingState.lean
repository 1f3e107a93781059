-- SUMMARY: What one step does to a rolling state, and what every run of steps keeps of the state that it began with.
import Mathlib
import Rebalancing.Proofs.Acceptance
import Rebalancing.RollingState

/-!
# Runs of rolling states

A step either makes no decision and leaves the state, or moves the state on by the
trade that it decided for. So a run of steps is told by its decisions: the period
counts them, and they add up to what became of allocation and growth proxy. The
growth proxy of the next period is the one that the test of the answer has seen,
which is why it stays above zero.
-/

namespace Rebalancing

variable {F : Type} [Scalar F]

/-! ## Refused inputs -/

/-- The error is about the size of the allocation or the growth proxy, or about the
growth proxy not being above zero. -/
def InputError.BlamesState : InputError F → Prop
  | sizeMismatch datum _ _ => datum = .allocation ∨ datum = .growth
  | nonPositiveGrowth _ => True
  | _ => False

namespace Inputs

variable {inp : Inputs F} {par : Settings F}

section Checks

variable {e : InputError F}

theorem not_blamesState_of_finiteFault? {datum : Datum} {values : Column F}
    (h : finiteFault? datum values = some e) : ¬ e.BlamesState := by
  unfold finiteFault? at h
  split at h
  · cases h
  · cases h
    exact id

theorem not_blamesState_of_symmetryFault? {tol : F} {n : ℕ} {covariance : Covariance F}
    (h : symmetryFault? tol n covariance = some e) : ¬ e.BlamesState := by
  cases covariance with
  | packed m => cases h
  | full m =>
    obtain ⟨c, -, hc⟩ := List.exists_of_findSome?_eq_some h
    obtain ⟨r, -, rfl⟩ := Option.map_eq_some_iff.mp hc
    exact id

theorem not_blamesState_of_definiteFault? {tol eps : F} {covariance : Covariance F}
    (h : definiteFault? tol eps covariance = some e) : ¬ e.BlamesState := by
  obtain ⟨-, he⟩ := Option.ite_none_right_eq_some.mp h
  cases he
  exact id

/-- Inputs whose allocation and growth proxy are of the assets, and whose growth proxy
is above zero, are refused for other reasons only. -/
theorem not_blamesState_of_validate (hallocation : inp.allocation.size = inp.assets)
    (hgrowth : inp.growth.size = inp.assets) (hpos : ∀ e ∈ inp.growth, ¬ e ≤ 0)
    (h : inp.validate par = .error e) : ¬ e.BlamesState := by
  have hfault := validate_eq_error_iff.mp h
  have hsize : ∀ datum, sizeFault? (F := F) datum (inp.assets, 1) (inp.assets, 1) = none :=
    fun datum => sizeFault?_eq_none_iff.mpr rfl
  -- The three checks of the state find nothing; each of the others has errors of its own.
  simp only [fault?, hallocation, hgrowth, hsize, growthFault?_eq_none_iff.mpr hpos,
    Option.orElse_eq_some, reduceCtorEq, false_or, true_and] at hfault
  rcases hfault with h | ⟨-, h | ⟨-, h | ⟨-, h | ⟨-, h | ⟨-, h | ⟨-, h | ⟨-, h | ⟨-, h | ⟨-,
    h | ⟨-, h⟩⟩⟩⟩⟩⟩⟩⟩⟩⟩
  · cases (Option.ite_none_right_eq_some.mp h).2
    exact id
  · cases (Option.ite_none_left_eq_some.mp h).2
    simp [InputError.BlamesState, Datum.covariance, Datum.allocation, Datum.growth]
  · exact not_blamesState_of_finiteFault? h
  · exact not_blamesState_of_finiteFault? h
  · exact not_blamesState_of_finiteFault? h
  · exact not_blamesState_of_finiteFault? h
  · exact not_blamesState_of_finiteFault? h
  · exact not_blamesState_of_finiteFault? h
  · cases (Option.ite_none_right_eq_some.mp h).2
    exact id
  · exact not_blamesState_of_symmetryFault? h
  · exact not_blamesState_of_definiteFault? h

end Checks

end Inputs

/-! ## One step -/

/-- The decision that a report holds, if it holds one. -/
def decided? (report : Option (Report F)) : Option (Decision F) :=
  report.bind fun r => r.result.toOption

omit [Scalar F] in
theorem decided?_of_ok {report : Report F} {d : Decision F} (h : report.result = .ok d) :
    decided? (some report) = some d := by
  rw [decided?, Option.bind_some, h]
  rfl

omit [Scalar F] in
theorem decided?_of_error {report : Report F} {e : RebalanceError F}
    (h : report.result = .error e) : decided? (some report) = none := by
  rw [decided?, Option.bind_some, h]
  rfl

/-- The state that inputs are taken from at the first period. -/
def Inputs.state (inp : Inputs F) : RollingState F where
  allocation := inp.allocation
  growth := inp.growth

/-- The part of inputs that no state holds. -/
def Inputs.outlook (inp : Inputs F) : Outlook F where
  returns := inp.returns
  covariance := inp.covariance
  riskAversion := inp.riskAversion
  coupling := inp.coupling

namespace RollingState

/-- The state after a trade. -/
def moved (s : RollingState F) (t : Trade F) (coupling : F) : RollingState F where
  allocation := t.newAllocation s.allocation
  growth := t.newGrowth s.growth coupling
  period := s.period + 1

theorem advance_of_ofSize {s : RollingState F} {t : Trade F} {n : ℕ} (ht : t.OfSize n)
    (hallocation : s.allocation.size = n) (hgrowth : s.growth.size = n) (coupling : F) :
    s.advance t coupling = (true, s.moved t coupling) := by
  rw [advance, ht.newAllocation?_eq_some hallocation, ht.newGrowth?_eq_some hgrowth]
  rfl

/-- What a step has seen to when it decides for a trade. -/
structure Settles (s : RollingState F) (par : Settings F) (o : Outlook F) (t : Trade F) : Prop where
  sized : (s.inputs o).Sized
  ofSize : t.OfSize (s.inputs o).assets
  growthLoss_eq : growthLoss? par.epsClip s.growth (t.newGrowth s.growth o.coupling) = none

/-- A step reports what the rebalance reports and leaves the state, unless there is a
decision; then it moves the state on by the trade of that decision. -/
theorem step_cases (s : RollingState F) (par : Settings F) (solver : ConicSolver F)
    (o : Outlook F) :
    (s.step par solver o = (rebalance par solver (s.inputs o), s) ∧
      decided? (rebalance par solver (s.inputs o)) = none) ∨
    ∃ report d, rebalance par solver (s.inputs o) = some report ∧ report.result = .ok d ∧
      s.Settles par o d.trade ∧
      s.step par solver o =
        (some { report with log := report.log ++ [.advanced (s.period + 1)] },
          s.moved d.trade o.coupling) := by
  rw [step]
  cases hreport : rebalance par solver (s.inputs o) with
  | none => exact .inl ⟨rfl, rfl⟩
  | some report =>
    cases hresult : report.result with
    | error e =>
      simp only [hresult]
      exact .inl ⟨trivial, decided?_of_error hresult⟩
    | ok d =>
      obtain ⟨x, hvalid, -, -, hpasses, rfl⟩ := exists_answer_of_ok hreport hresult
      have hsized := (Inputs.sized_of_validate hvalid).1
      have ht := x.ofSize_clippedTrade (s.inputs o).assets
      have hadvance := advance_of_ofSize (s := s) ht hsized.size_allocation hsized.size_growth
        o.coupling
      refine .inr ⟨report, _, rfl, hresult, ⟨hsized, ht, hpasses.growthLoss_eq⟩, ?_⟩
      simp only [hresult, Inputs.decision, hadvance]
      rfl

/-- An answer that passes the test moves the state on by its clipped trade. -/
theorem step_of_passes {s : RollingState F} {par : Settings F} {solver : ConicSolver F}
    {o : Outlook F} {n : ℕ} (hn : (s.inputs o).validate par = .ok n) {x : Column F}
    (hx : solver par.solver ((s.inputs o).program SymMatrix.sqrt par.solver.epsZero).conic =
      some (.ok x))
    (hsize : x.size = ((s.inputs o).program SymMatrix.sqrt par.solver.epsZero).cols)
    (hpasses : (s.inputs o).Passes par.epsClip x) :
    ∃ report, (s.step par solver o).1 = some report ∧
      report.result = .ok ((s.inputs o).decision (x.clippedTrade (s.inputs o).assets)) ∧
      (s.step par solver o).2 = s.moved (x.clippedTrade (s.inputs o).assets) o.coupling := by
  obtain ⟨report, hreport, hdecision, -⟩ := rebalanceBy_of_answer hn hx hsize
  have hresult := hdecision hpasses
  obtain ⟨-, hnone⟩ | ⟨report', d, hreport', hresult', -, hstep⟩ := s.step_cases par solver o
  · rw [rebalance, hreport, decided?_of_ok hresult] at hnone
    cases hnone
  · rw [rebalance, hreport] at hreport'
    cases hreport'
    rw [hresult] at hresult'
    cases hresult'
    rw [hstep]
    exact ⟨_, rfl, hresult, rfl⟩

/-- A step that is refused for its inputs was refused by validation. -/
theorem validate_of_step {s : RollingState F} {par : Settings F} {solver : ConicSolver F}
    {o : Outlook F} {report : Report F} {e : InputError F}
    (h : (s.step par solver o).1 = some report) (he : report.result = .error (.invalidInput e)) :
    (s.inputs o).validate par = .error e := by
  obtain ⟨hstep, -⟩ | ⟨report', d, -, hresult, -, hstep⟩ := s.step_cases par solver o
  · rw [hstep] at h
    exact validate_eq_error h he
  · rw [hstep] at h
    cases h
    cases hresult.symm.trans he

end RollingState

/-! ## Runs -/

/-- A call of a step: an optimizer, which is its settings and its solver, and the data
of the period. -/
structure Call (F : Type) where
  par : Settings F
  solver : ConicSolver F
  outlook : Outlook F

/-- A step that was taken. -/
structure Turn (F : Type) where
  call : Call F
  before : RollingState F
  report : Option (Report F)
  after : RollingState F

/-- The turn that a call takes from a state. -/
def RollingState.turn (s : RollingState F) (c : Call F) : Turn F where
  call := c
  before := s
  report := (s.step c.par c.solver c.outlook).1
  after := (s.step c.par c.solver c.outlook).2

/-- The turns that a sequence of calls takes from a state. -/
def RollingState.turns (s : RollingState F) : List (Call F) → List (Turn F)
  | [] => []
  | c :: cs => s.turn c :: (s.turn c).after.turns cs

/-- The coupling and the trade of the decision of a turn, if it made one. -/
def Turn.settled? (turn : Turn F) : Option (F × Trade F) :=
  (decided? turn.report).map fun d => (turn.call.outlook.coupling, d.trade)

/-- The turn is the step of its call. -/
def Turn.IsStep (turn : Turn F) : Prop :=
  turn.before.step turn.call.par turn.call.solver turn.call.outlook = (turn.report, turn.after)

/-- A step makes no decision and leaves the state, or moves it on by its decision. -/
theorem Turn.IsStep.cases {turn : Turn F} (h : turn.IsStep) :
    (decided? turn.report = none ∧ turn.after = turn.before) ∨
    ∃ d, decided? turn.report = some d ∧
      turn.before.Settles turn.call.par turn.call.outlook d.trade ∧
      turn.after = turn.before.moved d.trade turn.call.outlook.coupling := by
  obtain ⟨hleft, hnone⟩ | ⟨report, d, -, hresult, hsettles, hmoved⟩ :=
    turn.before.step_cases turn.call.par turn.call.solver turn.call.outlook
  · obtain ⟨hreport, hafter⟩ := Prod.mk.inj (h.symm.trans hleft)
    exact .inl ⟨hreport ▸ hnone, hafter⟩
  · obtain ⟨hreport, hafter⟩ := Prod.mk.inj (h.symm.trans hmoved)
    refine .inr ⟨d, ?_, hsettles, hafter⟩
    rw [hreport]
    exact decided?_of_ok hresult

/-- What is guaranteed of a turn, for a state of `n` assets: it is the step of its call,
and without a decision it leaves the state. With a decision the geometric mean of
the growth proxy falls by no more than the tolerance of the call. The inputs are
never refused for what the state carries. -/
structure Turn.Sound (turn : Turn ℝ) (n : ℕ) : Prop where
  isStep : turn.IsStep
  after_eq : decided? turn.report = none → turn.after = turn.before
  ofSize : ∀ d, decided? turn.report = some d → d.trade.OfSize n
  mean_le : ∀ d, decided? turn.report = some d →
    turn.before.growth.geometricMean -
        turn.call.par.epsClip * max 1 turn.before.growth.geometricMean ≤
      turn.after.growth.geometricMean
  not_blamesState : turn.call.outlook.returns.size = n →
    ∀ report e, turn.report = some report → report.result = .error (.invalidInput e) →
      ¬ e.BlamesState

/-- What some turns from a state lead to: their decisions are counted and added up, and
the growth proxy is above zero. -/
structure RollingState.Reaches (start : RollingState ℝ) (turns : List (Turn ℝ))
    (s : RollingState ℝ) (n : ℕ) : Prop where
  size_allocation : s.allocation.size = n
  size_growth : s.growth.size = n
  growth_pos : ∀ e ∈ s.growth, 0 < e
  period_eq : s.period = start.period + (turns.filterMap Turn.settled?).length
  coord_allocation : ∀ i < n, s.allocation.coord i = start.allocation.coord i +
    ((turns.filterMap Turn.settled?).map fun (_, t) => t.lam.coord i - t.delta.coord i).sum
  coord_growth : ∀ i < n, s.growth.coord i = start.growth.coord i +
    ((turns.filterMap Turn.settled?).map fun (γ, t) => γ * t.delta.coord i - t.lam.coord i).sum

namespace RollingState

section Runs

variable {start s : RollingState ℝ} {made : List (Turn ℝ)} {n : ℕ}

theorem Reaches.refl (hallocation : start.allocation.size = n) (hgrowth : start.growth.size = n)
    (hpos : ∀ e ∈ start.growth, 0 < e) : start.Reaches [] start n where
  size_allocation := hallocation
  size_growth := hgrowth
  growth_pos := hpos
  period_eq := by simp
  coord_allocation i _ := by simp
  coord_growth i _ := by simp

/-- A turn without a decision changes nothing. -/
theorem Reaches.snoc_of_none (h : start.Reaches made s n) {turn : Turn ℝ}
    (hnone : turn.settled? = none) : start.Reaches (made ++ [turn]) s n := by
  have hsettled : (made ++ [turn]).filterMap Turn.settled? = made.filterMap Turn.settled? := by
    simp [List.filterMap_append, hnone]
  constructor
  · exact h.size_allocation
  · exact h.size_growth
  · exact h.growth_pos
  · rw [hsettled]
    exact h.period_eq
  · rw [hsettled]
    exact h.coord_allocation
  · rw [hsettled]
    exact h.coord_growth

/-- A turn with a decision moves the state on, and the test of the answer has seen the
growth proxy that is reached. -/
theorem Reaches.snoc_of_some (h : start.Reaches made s n) {turn : Turn ℝ} {γ : ℝ} {t : Trade ℝ}
    (hsome : turn.settled? = some (γ, t)) (ht : t.OfSize n)
    (hpos : ∀ e ∈ t.newGrowth s.growth γ, 0 < e) :
    start.Reaches (made ++ [turn]) (s.moved t γ) n := by
  have hsettled : (made ++ [turn]).filterMap Turn.settled? =
      made.filterMap Turn.settled? ++ [(γ, t)] := by
    simp [List.filterMap_append, hsome]
  constructor
  · exact ht.size_newAllocation h.size_allocation
  · exact ht.size_newGrowth h.size_growth γ
  · exact hpos
  · rw [hsettled, List.length_append, List.length_singleton, ← Nat.add_assoc, ← h.period_eq]
    rfl
  · intro i hi
    have hcoord : (s.moved t γ).allocation.coord i =
        s.allocation.coord i - t.delta.coord i + t.lam.coord i :=
      ht.coord_newAllocation h.size_allocation hi
    rw [hsettled, List.map_append, List.sum_append, hcoord, h.coord_allocation i hi,
      List.map_singleton, List.sum_singleton]
    ring
  · intro i hi
    have hcoord : (s.moved t γ).growth.coord i =
        s.growth.coord i + γ * t.delta.coord i - t.lam.coord i :=
      ht.coord_newGrowth h.size_growth γ hi
    rw [hsettled, List.map_append, List.sum_append, hcoord, h.coord_growth i hi,
      List.map_singleton, List.sum_singleton]
    ring

variable {turn : Turn ℝ}

/-- A step leads on from what was reached before it. -/
theorem Reaches.snoc (h : start.Reaches made turn.before n) (hstep : turn.IsStep) :
    start.Reaches (made ++ [turn]) turn.after n := by
  obtain ⟨hnone, hafter⟩ | ⟨d, hdecided, hsettles, hafter⟩ := hstep.cases
  · rw [hafter]
    refine h.snoc_of_none ?_
    rw [Turn.settled?, hnone]
    rfl
  · have hassets : (turn.before.inputs turn.call.outlook).assets = n :=
      hsettles.sized.size_allocation.symm.trans h.size_allocation
    rw [hafter]
    refine h.snoc_of_some ?_ (hassets ▸ hsettles.ofSize) ?_
    · rw [Turn.settled?, hdecided]
      rfl
    · exact ((growthLoss?_eq_none_iff _ _ _).mp hsettles.growthLoss_eq).1

theorem Reaches.not_blamesState (h : start.Reaches made turn.before n) (hstep : turn.IsStep)
    (hreturns : turn.call.outlook.returns.size = n) {report : Report ℝ} {e : InputError ℝ}
    (hreport : turn.report = some report) (he : report.result = .error (.invalidInput e)) :
    ¬ e.BlamesState := by
  have hvalid : (turn.before.inputs turn.call.outlook).validate turn.call.par = .error e := by
    have hfirst : (turn.before.step turn.call.par turn.call.solver turn.call.outlook).1 =
        some report := by
      rw [hstep]
      exact hreport
    exact validate_of_step hfirst he
  refine Inputs.not_blamesState_of_validate ?_ ?_ (fun v hv => ?_) hvalid
  · exact h.size_allocation.trans hreturns.symm
  · exact h.size_growth.trans hreturns.symm
  · exact not_le.mpr (h.growth_pos v hv)

theorem Reaches.sound (h : start.Reaches made turn.before n) (hstep : turn.IsStep) :
    turn.Sound n := by
  obtain ⟨hnone, hafter⟩ | ⟨d, hdecided, hsettles, hafter⟩ := hstep.cases
  · have hundecided : ∀ d, decided? turn.report ≠ some d := by
      intro d hd
      cases hnone.symm.trans hd
    exact ⟨hstep, fun _ => hafter, fun d hd => absurd hd (hundecided d),
      fun d hd => absurd hd (hundecided d), fun hn _ _ => h.not_blamesState hstep hn⟩
  · have hassets : (turn.before.inputs turn.call.outlook).assets = n :=
      hsettles.sized.size_allocation.symm.trans h.size_allocation
    have hmean := ((growthLoss?_eq_none_iff _ _ _).mp hsettles.growthLoss_eq).2
    rw [Scalar.max_real] at hmean
    refine ⟨hstep, fun hnone => ?_, fun d' hd' => ?_, fun _ _ => ?_,
      fun hn _ _ => h.not_blamesState hstep hn⟩
    · cases hdecided.symm.trans hnone
    · cases hdecided.symm.trans hd'
      exact hassets ▸ hsettles.ofSize
    · rw [hafter]
      exact hmean

/-- A turn of a run starts where the turns before it have led. -/
theorem Reaches.before_of_turns {calls : List (Call ℝ)} {earlier later : List (Turn ℝ)}
    (h : start.Reaches made s n) (hturns : s.turns calls = earlier ++ turn :: later) :
    start.Reaches (made ++ earlier) turn.before n ∧ turn.IsStep := by
  -- By induction on the calls; what was made so far grows by the first turn.
  induction calls generalizing s made earlier with
  | nil => cases earlier <;> cases hturns
  | cons c cs ih =>
    cases earlier with
    | nil =>
      obtain ⟨rfl, -⟩ := List.cons.inj hturns
      rw [List.append_nil]
      exact ⟨h, rfl⟩
    | cons first earlier =>
      obtain ⟨rfl, hrest⟩ := List.cons.inj hturns
      rw [List.append_cons]
      exact ih (h.snoc rfl) hrest

end Runs

/-- Start from an allocation and a growth proxy of the same assets, the growth proxy
above zero, and take any number of steps with any optimizers and data. After every
one of them both are of those assets, the growth proxy is above zero, the period
counts the decisions made, and allocation and growth proxy are those of the start
plus what the decisions changed. Every turn is sound: only a decision moves the
state. -/
theorem turns_reach {n : ℕ} {allocation growth : Column ℝ} (hallocation : allocation.size = n)
    (hgrowth : growth.size = n) (hpos : ∀ e ∈ growth, 0 < e) (calls : List (Call ℝ))
    {earlier later : List (Turn ℝ)} {turn : Turn ℝ}
    (hturns : turns { allocation, growth } calls = earlier ++ turn :: later) :
    Reaches { allocation, growth } (earlier ++ [turn]) turn.after n ∧ turn.Sound n := by
  have hstart : Reaches { allocation, growth } [] { allocation, growth } n :=
    .refl hallocation hgrowth hpos
  obtain ⟨hbefore, hstep⟩ := hstart.before_of_turns hturns
  exact ⟨hbefore.snoc hstep, hbefore.sound hstep⟩

section TwoAssets

open Inputs

/-- The answer that sells the first of the two assets. -/
noncomputable def answerTwo : Column ℝ := swapTwo.stack #[0] 0

/-- A step over the two assets, with a solver that always gives the same answer. -/
noncomputable def callTwo (answer : Column ℝ) : Call ℝ where
  par := .default
  solver := fun _ _ => some (.ok answer)
  outlook := twoAssets.outlook

theorem passes_answerTwo :
    twoAssets.Passes (Settings.default (F := ℝ)).epsClip answerTwo :=
  passes_swapTwo

theorem clippedTrade_answerTwo :
    answerTwo.clippedTrade twoAssets.assets = swapTwo :=
  (clippedTrade_eq_trade fun _ _ => rfl).trans (admits_swapTwo.trade_stack ofSize_swapTwo _ _)

theorem moved_swapTwo : twoAssets.state.moved swapTwo twoAssets.coupling =
    { allocation := #[0, 5 / 4], growth := #[3 / 2, 3 / 4], period := 1 } := by
  have hallocation : swapTwo.newAllocation twoAssets.state.allocation = #[0, 5 / 4] := by
    refine Column.ext_coord rfl fun i hi => ?_
    have hi : i < 2 := hi
    rw [ofSize_swapTwo.coord_newAllocation rfl hi]
    interval_cases i <;> norm_num [state, twoAssets, swapTwo, Column.coord]
  have hgrowth :
      swapTwo.newGrowth twoAssets.state.growth twoAssets.coupling = #[3 / 2, 3 / 4] := by
    refine Column.ext_coord rfl fun i hi => ?_
    have hi : i < 2 := hi
    rw [ofSize_swapTwo.coord_newGrowth rfl _ hi]
    interval_cases i <;> norm_num [state, twoAssets, swapTwo, Column.coord]
  rw [moved, hallocation, hgrowth]
  rfl

theorem after_turn_answerTwo : (twoAssets.state.turn (callTwo answerTwo)).after =
    { allocation := #[0, 5 / 4], growth := #[3 / 2, 3 / 4], period := 1 } := by
  have hvalid : (twoAssets.state.inputs (callTwo answerTwo).outlook).validate .default = .ok 2 :=
    validate_twoAssets
  have hanswer : (callTwo answerTwo).solver (Settings.default (F := ℝ)).solver
      ((twoAssets.state.inputs (callTwo answerTwo).outlook).program SymMatrix.sqrt
        (Settings.default (F := ℝ)).solver.epsZero).conic = some (.ok answerTwo) := rfl
  obtain ⟨report, -, -, hstep⟩ := step_of_passes hvalid hanswer rfl passes_answerTwo
  rw [← moved_swapTwo]
  exact hstep.trans (congrArg (twoAssets.state.moved · _) clippedTrade_answerTwo)

/-- An answer of no entries leaves every state. -/
theorem turn_empty (s : RollingState ℝ) :
    decided? (s.turn (callTwo #[])).report = none ∧ (s.turn (callTwo #[])).after = s := by
  rw [turn]
  obtain ⟨hstep, hnone⟩ | ⟨report, d, hreport, hresult, -, -⟩ :=
    s.step_cases (callTwo #[]).par (callTwo #[]).solver (callTwo #[]).outlook
  · rw [hstep]
    exact ⟨hnone, rfl⟩
  · obtain ⟨x, hvalid, hanswer, hsize, -⟩ := exists_answer_of_ok hreport hresult
    cases hanswer
    rw [cols_program _ _ (sized_of_validate hvalid).1] at hsize
    cases hsize

/-- Two steps, of which the first one swaps and the second one breaks off. -/
theorem turns_reach_twoAssets :
    ∃ first second : Turn ℝ,
      twoAssets.state.turns [callTwo answerTwo, callTwo #[]] = [first, second] ∧
      twoAssets.state.Reaches [first, second] second.after 2 ∧ second.Sound 2 ∧
      decided? second.report = none ∧
      second.after = { allocation := #[0, 5 / 4], growth := #[3 / 2, 3 / 4], period := 1 } := by
  have hallocation : twoAssets.state.allocation.size = 2 := rfl
  have hgrowth : twoAssets.state.growth.size = 2 := rfl
  have hpos : ∀ e ∈ twoAssets.state.growth, (0 : ℝ) < e := by simp [state, twoAssets]
  have hturns : twoAssets.state.turns [callTwo answerTwo, callTwo #[]] =
      [twoAssets.state.turn (callTwo answerTwo)] ++
        (twoAssets.state.turn (callTwo answerTwo)).after.turn (callTwo #[]) :: [] := rfl
  obtain ⟨hreaches, hsound⟩ := turns_reach hallocation hgrowth hpos _ hturns
  obtain ⟨hnone, hafter⟩ := turn_empty (twoAssets.state.turn (callTwo answerTwo)).after
  exact ⟨_, _, hturns, hreaches, hsound, hnone, hafter.trans after_turn_answerTwo⟩

end TwoAssets

end RollingState

end Rebalancing
