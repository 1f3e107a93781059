-- SUMMARY: A symmetric covariance given in full and the same one given packed lead to the same outcome everywhere.
import Mathlib
import Rebalancing.Proofs.RollingState

/-!
# Forms of a covariance

A full covariance is searched for asymmetry and averaged with its transpose, a
packed one is taken as it is, and each is read by its own layout. Over the reals
only the matrix counts: two forms of one symmetric matrix have the same symmetric
part, so they pass the same checks, lead to the same program and give every
allocation the same objective. Rebalances and runs of steps cannot tell them apart.
-/

open Matrix

namespace Rebalancing

/-! ## Forms of one matrix -/

namespace Covariance

/-- The covariance, in whichever form it is given, is the matrix. -/
structure Holds (s : Covariance ℝ) {n : ℕ} (M : Matrix (Fin n) (Fin n) ℝ) : Prop where
  size_eq : s.size = (n, n)
  toMatrix_eq : s.toMatrix n = M

/-- Both covariances are the same symmetric matrix. -/
def Alike (s s' : Covariance ℝ) : Prop :=
  ∃ (n : ℕ) (M : Matrix (Fin n) (Fin n) ℝ), M.IsSymm ∧ s.Holds M ∧ s'.Holds M

section OneForm

variable {s : Covariance ℝ} {n : ℕ} {M : Matrix (Fin n) (Fin n) ℝ}

theorem holds_full (n : ℕ) (f : ℕ → ℕ → ℝ) :
    (full (.ofFn n n f)).Holds (.of fun i j : Fin n => f i j) where
  size_eq := rfl
  toMatrix_eq := by
    ext i j
    exact RectMatrix.entry_ofFn f i.isLt j.isLt

theorem holds_packed (n : ℕ) {f : ℕ → ℕ → ℝ} (hf : ∀ i j, f i j = f j i) :
    (packed (.ofFn n f)).Holds (.of fun i j : Fin n => f i j) where
  size_eq := by rw [size, SymMatrix.order_ofFn]
  toMatrix_eq := by
    ext i j
    change (SymMatrix.ofFn n f).entry i j = f i j
    rcases le_total (i : ℕ) j with hij | hji
    · exact SymMatrix.entry_ofFn f hij j.isLt
    · rw [SymMatrix.entry_comm, SymMatrix.entry_ofFn f hji i.isLt, hf]

/-- The two forms of one symmetric matrix. -/
theorem alike_ofFn (n : ℕ) {f : ℕ → ℕ → ℝ} (hf : ∀ i j, f i j = f j i) :
    (full (.ofFn n n f)).Alike (packed (.ofFn n f)) :=
  ⟨n, .of fun i j => f i j, Matrix.ext fun i j => hf j i, holds_full n f, holds_packed n hf⟩

/-- The symmetric part of a symmetric covariance is that covariance. -/
theorem Holds.symmetrize (h : s.Holds M) (hM : M.IsSymm) :
    (packed s.symmetrize).Holds M where
  size_eq := by rw [size, order_symmetrize h.size_eq]
  toMatrix_eq := by
    change s.symmetrize.toMatrix n = M
    rw [toMatrix_symmetrize h.size_eq, h.toMatrix_eq, hM.eq]
    ext i j
    rw [Matrix.smul_apply, Matrix.add_apply, smul_eq_mul]
    ring

/-- A tolerance that is not below zero finds no fault with a symmetric covariance. -/
theorem Holds.symmetryFault?_eq_none (h : s.Holds M) (hM : M.IsSymm) {tol : ℝ} (htol : 0 ≤ tol) :
    Inputs.symmetryFault? tol n s = none := by
  cases s with
  | packed m => rfl
  | full m =>
    have hcell : ∀ r c, r < c → c < n → m.entry r c = m.entry c r := by
      intro r c hrc hc
      have hsymm := congrFun (congrFun (h.toMatrix_eq ▸ hM.eq) ⟨c, hc⟩) ⟨r, hrc.trans hc⟩
      exact hsymm
    refine List.findSome?_eq_none_iff.mpr fun c hc => ?_
    rw [Option.map_eq_none_iff, List.find?_eq_none]
    intro r hr
    rw [hcell r c (List.mem_range.mp hr) (List.mem_range.mp hc)]
    -- What is allowed is not below zero, and two equal cells differ by zero.
    have hallowed : 0 ≤ tol * max (max 1 |m.entry c r|) |m.entry c r| := by positivity
    simpa [Inputs.isAsymmetric] using hallowed

end OneForm

namespace Alike

variable {s s' : Covariance ℝ} (h : s.Alike s')

include h

theorem size_eq : s.size = s'.size := by
  obtain ⟨n, M, -, hs, hs'⟩ := h
  rw [hs.size_eq, hs'.size_eq]

theorem symmetrize_eq : s.symmetrize = s'.symmetrize := by
  obtain ⟨n, M, hM, hs, hs'⟩ := h
  have hpart := hs.symmetrize hM
  have hpart' := hs'.symmetrize hM
  exact SymMatrix.eq_of_toMatrix_eq (congrArg Prod.fst hpart.size_eq)
    (congrArg Prod.fst hpart'.size_eq) (hpart.toMatrix_eq.trans hpart'.toMatrix_eq.symm)

theorem symmetrize?_eq : s.symmetrize? = s'.symmetrize? := by
  rw [symmetrize?, symmetrize?, h.size_eq, h.symmetrize_eq]

theorem quadForm_eq {z : Column ℝ} (hz : s.size = (z.size, z.size)) :
    s.quadForm z = s'.quadForm z := by
  obtain ⟨n, M, -, hs, hs'⟩ := h
  have hn : z.size = n := congrArg Prod.fst (hz.symm.trans hs.size_eq)
  rw [quadForm_eq_dotProduct s z hn, quadForm_eq_dotProduct s' z hn, hs.toMatrix_eq,
    hs'.toMatrix_eq]

theorem objective?_eq (returns : Column ℝ) (riskAversion : ℝ) (z : Column ℝ) :
    objective? returns s riskAversion z = objective? returns s' riskAversion z := by
  unfold objective?
  rw [← h.size_eq]
  by_cases hz : returns.size = z.size ∧ s.size = (z.size, z.size)
  · rw [if_pos hz, if_pos hz, objective, objective, h.quadForm_eq hz.2]
  · rw [if_neg hz, if_neg hz]

theorem symmetryFault?_eq {tol : ℝ} (htol : 0 ≤ tol) {n : ℕ} (hn : (n, n) = s.size) :
    Inputs.symmetryFault? tol n s = Inputs.symmetryFault? tol n s' := by
  obtain ⟨k, M, hM, hs, hs'⟩ := h
  obtain rfl : n = k := congrArg Prod.fst (hn.trans hs.size_eq)
  rw [hs.symmetryFault?_eq_none hM htol, hs'.symmetryFault?_eq_none hM htol]

theorem definiteFault?_eq (tol eps : ℝ) :
    Inputs.definiteFault? tol eps s = Inputs.definiteFault? tol eps s' := by
  rw [Inputs.definiteFault?, Inputs.definiteFault?, h.symmetrize_eq]

end Alike

end Covariance

/-! ## One period -/

/-- The same inputs with another covariance. -/
def Inputs.withCovariance (inp : Inputs ℝ) (s : Covariance ℝ) : Inputs ℝ :=
  { inp with covariance := s }

/-- The same data with another covariance. -/
def Outlook.withCovariance (o : Outlook ℝ) (s : Covariance ℝ) : Outlook ℝ :=
  { o with covariance := s }

namespace Covariance.Alike

variable {s s' : Covariance ℝ} (h : s.Alike s') (inp : Inputs ℝ)

include h

theorem fault?_eq {par : Settings ℝ} (hpar : 0 ≤ par.symTol) :
    (inp.withCovariance s).fault? par = (inp.withCovariance s').fault? par := by
  have hfinite : ∀ t : Covariance ℝ,
      Inputs.finiteFault? (F := ℝ) .covariance t.cells = none :=
    fun t => Inputs.finiteFault?_eq_none_iff.mpr fun _ _ => rfl
  unfold Inputs.fault?
  simp only [Inputs.withCovariance, Inputs.assets, hfinite, ← h.size_eq, ← h.definiteFault?_eq]
  -- Symmetry is looked at only where the covariance is of the assets.
  by_cases hn : (inp.returns.size, inp.returns.size) = s.size
  · rw [h.symmetryFault?_eq hpar hn]
    rfl
  · simp [Inputs.sizeFault?, hn]

theorem validate_eq {par : Settings ℝ} (hpar : 0 ≤ par.symTol) :
    (inp.withCovariance s).validate par = (inp.withCovariance s').validate par := by
  unfold Inputs.validate
  rw [h.fault?_eq inp hpar]
  rfl

theorem program?_eq (root : RootMethod ℝ) (epsZero : ℝ) :
    (inp.withCovariance s).program? root epsZero =
      (inp.withCovariance s').program? root epsZero := by
  unfold Inputs.program? Inputs.withCovariance
  rw [h.symmetrize?_eq]

theorem accept_eq (eps : ℝ) (delta lam : Column ℝ) :
    accept (inp.withCovariance s) eps delta lam = accept (inp.withCovariance s') eps delta lam := by
  have happraise : appraise (inp.withCovariance s) eps = appraise (inp.withCovariance s') eps := by
    funext trade
    unfold appraise
    simp only [Inputs.withCovariance, h.objective?_eq]
    rfl
  rw [accept, accept, happraise]

theorem rebalanceBy_eq {par : Settings ℝ} (hpar : 0 ≤ par.symTol) (root : RootMethod ℝ)
    (solver : ConicSolver ℝ) :
    rebalanceBy root par solver (inp.withCovariance s) =
      rebalanceBy root par solver (inp.withCovariance s') := by
  rw [rebalanceBy, rebalanceBy, h.validate_eq inp hpar, h.program?_eq inp]
  simp only [h.accept_eq inp]

theorem step_eq {par : Settings ℝ} (hpar : 0 ≤ par.symTol) (solver : ConicSolver ℝ)
    (o : Outlook ℝ) (state : RollingState ℝ) :
    state.step par solver (o.withCovariance s) = state.step par solver (o.withCovariance s') := by
  have hrebalance : rebalance par solver (state.inputs (o.withCovariance s)) =
      rebalance par solver (state.inputs (o.withCovariance s')) :=
    h.rebalanceBy_eq (state.inputs o) hpar SymMatrix.sqrt solver
  unfold RollingState.step
  rw [hrebalance]
  rfl

end Covariance.Alike

/-! ## Runs -/

/-- Two calls of one optimizer with data that differ at most in the form of a symmetric
covariance. -/
inductive Call.Alike : Call ℝ → Call ℝ → Prop where
  | intro {par : Settings ℝ} (hpar : 0 ≤ par.symTol) (solver : ConicSolver ℝ) (o : Outlook ℝ)
      {s s' : Covariance ℝ} (h : s.Alike s') :
      Call.Alike ⟨par, solver, o.withCovariance s⟩ ⟨par, solver, o.withCovariance s'⟩

/-- What is seen of a turn beside its call. -/
def Turn.seen (turn : Turn ℝ) : RollingState ℝ × Option (Report ℝ) × RollingState ℝ :=
  (turn.before, turn.report, turn.after)

theorem Call.Alike.seen_turn_eq {c c' : Call ℝ} (h : c.Alike c') (state : RollingState ℝ) :
    (state.turn c).seen = (state.turn c').seen := by
  cases h with
  | intro hpar solver o h =>
    have hstep := h.step_eq hpar solver o state
    simp only [Turn.seen, RollingState.turn, hstep]

theorem RollingState.seen_turns_eq {calls calls' : List (Call ℝ)}
    (h : List.Forall₂ Call.Alike calls calls') (state : RollingState ℝ) :
    (state.turns calls).map Turn.seen = (state.turns calls').map Turn.seen := by
  -- By induction on the calls; the states after two alike turns are one.
  induction h generalizing state with
  | nil => rfl
  | @cons c c' _ _ hcall _ ih =>
    have hseen := hcall.seen_turn_eq state
    have hafter : (state.turn c).after = (state.turn c').after :=
      congrArg (fun seen => seen.2.2) hseen
    rw [turns, turns, List.map_cons, List.map_cons, hseen, hafter, ih]

/-- Two forms of one symmetric covariance cannot be told apart: they have one symmetric
part, pass the same checks or fail them with the same error, lead to the same
program, and every rebalance, by any root, settings and solver, ends with the same
report. Runs whose calls differ only so go through the same states. -/
theorem Covariance.Alike.outcomes_eq {s s' : Covariance ℝ} (h : s.Alike s') (inp : Inputs ℝ)
    {par : Settings ℝ} (hpar : 0 ≤ par.symTol) (root : RootMethod ℝ) (solver : ConicSolver ℝ)
    {calls calls' : List (Call ℝ)} (hcalls : List.Forall₂ Call.Alike calls calls')
    (start : RollingState ℝ) :
    s.symmetrize? = s'.symmetrize? ∧
    (inp.withCovariance s).validate par = (inp.withCovariance s').validate par ∧
    (inp.withCovariance s).program? root par.solver.epsZero =
      (inp.withCovariance s').program? root par.solver.epsZero ∧
    (inp.withCovariance s).zeroTradeObjective? = (inp.withCovariance s').zeroTradeObjective? ∧
    rebalanceBy root par solver (inp.withCovariance s) =
      rebalanceBy root par solver (inp.withCovariance s') ∧
    (start.turns calls).map Turn.seen = (start.turns calls').map Turn.seen :=
  ⟨h.symmetrize?_eq, h.validate_eq inp hpar, h.program?_eq inp root _,
    h.objective?_eq _ _ _, h.rebalanceBy_eq inp hpar root solver,
    start.seen_turns_eq hcalls⟩

section TwoAssets

open Inputs RollingState

/-- A covariance of two assets that move together, every cell stored. -/
noncomputable def comovingFull : Covariance ℝ :=
  .full (.ofFn 2 2 fun i j => if i = j then 1 + 1 else 1)

/-- The same covariance, the cell off the diagonal stored once. -/
noncomputable def comovingPacked : Covariance ℝ :=
  .packed (.ofFn 2 fun i j => if i = j then 1 + 1 else 1)

/-- The step that swaps the two assets, with their covariance given in full. -/
noncomputable def callTwoFull : Call ℝ where
  par := .default
  solver := (callTwo answerTwo).solver
  outlook := twoAssets.outlook.withCovariance
    (.full (.ofFn 2 2 fun i j => if i = j then i + 1 else 0))

theorem symTol_default_nonneg : 0 ≤ (Settings.default (F := ℝ)).symTol := by
  simp [Settings.default, Scalar.tenToMinus]

theorem alike_comoving : comovingFull.Alike comovingPacked :=
  Covariance.alike_ofFn 2 fun _ _ => if_congr eq_comm rfl rfl

theorem alike_callTwoFull : callTwoFull.Alike (callTwo answerTwo) := by
  refine .intro symTol_default_nonneg _ twoAssets.outlook (Covariance.alike_ofFn 2 fun i j => ?_)
  rcases eq_or_ne i j with rfl | hij
  · rfl
  · rw [if_neg hij, if_neg hij.symm]

/-- Two assets that move together pass the same checks in both forms, and the swap of
two assets leads on to the same state in both. -/
theorem outcomes_eq_twoAssets :
    (twoAssets.withCovariance comovingFull).validate .default =
      (twoAssets.withCovariance comovingPacked).validate .default ∧
    (twoAssets.state.turns [callTwoFull]).map (fun turn => turn.after) =
      [{ allocation := #[0, 5 / 4], growth := #[3 / 2, 3 / 4], period := 1 }] := by
  have hcalls : List.Forall₂ Call.Alike [callTwoFull] [callTwo answerTwo] :=
    .cons alike_callTwoFull .nil
  obtain ⟨-, hvalidate, -, -, -, hturns⟩ := alike_comoving.outcomes_eq twoAssets
    symTol_default_nonneg SymMatrix.sqrt (callTwo answerTwo).solver hcalls twoAssets.state
  refine ⟨hvalidate, ?_⟩
  have hafter := congrArg (List.map fun seen => seen.2.2) hturns
  rw [List.map_map, List.map_map] at hafter
  refine hafter.trans ?_
  change [(twoAssets.state.turn (callTwo answerTwo)).after] = _
  rw [after_turn_answerTwo]

end TwoAssets

end Rebalancing
