-- SUMMARY: What a rebalance makes of any answer of its solver, values that are no numbers included, and what a decision says of its answer.
import Mathlib
import Rebalancing.Optimizer
import Rebalancing.Proofs.Trade
import Rebalancing.Proofs.Validation

/-!
# Answers

Clipping puts zero in place of an entry below zero and leaves every other entry,
also one that compares with nothing. So every answer of the right length stands
for a trade, and the test either decides for that trade or refuses the answer.
Nothing here depends on the arithmetic.
-/

namespace Rebalancing

variable {F : Type} [Scalar F]

/-! ## What answers stand for -/

/-- An entry after clipping. -/
def clipped (v : F) : F := if v < 0 then 0 else v

/-- The trade that clipping makes of the two leading columns of an answer. -/
def Column.clippedTrade (x : Column F) (n : ℕ) : Trade F where
  delta := (x.slice 0 n).map clipped
  lam := (x.slice n n).map clipped

/-- No entry is below zero by more than `eps`. -/
def Column.WithinNoise (x : Column F) (eps : F) : Prop := ∀ v ∈ x, v < 0 → ¬ eps < -v

/-- The decision for a trade. -/
def Inputs.decision (inp : Inputs F) (t : Trade F) : Decision F where
  trade := t
  objective :=
    Rebalancing.objective inp.returns inp.covariance inp.riskAversion
      (t.newAllocation inp.allocation)

/-- The answer passes the test of a rebalance. -/
structure Inputs.Passes (inp : Inputs F) (eps : F) (x : Column F) : Prop where
  delta_noise : (x.slice 0 inp.assets).WithinNoise eps
  lam_noise : (x.slice inp.assets inp.assets).WithinNoise eps
  growthLoss_eq : growthLoss? eps inp.growth
    ((x.clippedTrade inp.assets).newGrowth inp.growth inp.coupling) = none

/-! ## Clipped trades -/

theorem clipped_of_lt {v : F} (h : v < 0) : clipped v = 0 := if_pos h

theorem clipped_of_not_lt {v : F} (h : ¬ v < 0) : clipped v = v := if_neg h

namespace Column

variable (x : Column F) (n : ℕ)

theorem ofSize_clippedTrade : (x.clippedTrade n).OfSize n :=
  ⟨by simp [clippedTrade], by simp [clippedTrade]⟩

theorem coord_clippedTrade_delta {i : ℕ} (hi : i < n) :
    (x.clippedTrade n).delta.coord i = clipped (x.coord i) := by
  rw [clippedTrade, coord_map _ ((x.size_slice 0 n).symm ▸ hi), x.coord_slice 0 hi, Nat.zero_add]

theorem coord_clippedTrade_lam {i : ℕ} (hi : i < n) :
    (x.clippedTrade n).lam.coord i = clipped (x.coord (n + i)) := by
  rw [clippedTrade, coord_map _ ((x.size_slice n n).symm ▸ hi), x.coord_slice n hi]

end Column

/-! ## Clipping -/

section Clipping

variable (side : Side) (eps : F)

theorem clipFrom_eq_map (i : ℕ) (vs : List F) (h : ∀ v ∈ vs, v < 0 → ¬ eps < -v) :
    (clipFrom side eps i vs).1 = some (vs.map clipped) := by
  induction vs generalizing i with
  | nil => rfl
  | cons v vs ih =>
    have hrest := ih (i + 1) fun w hw => h w (List.mem_cons_of_mem _ hw)
    rw [clipFrom]
    by_cases hv : v < 0
    · have hnoise : ¬ eps < -v := h v (List.mem_cons_self ..) hv
      simp [hv, hnoise, hrest, clipped_of_lt]
    · simp [hv, hrest, clipped_of_not_lt]

theorem clipFrom_of_not_withinNoise (i : ℕ) (vs : List F)
    (h : ¬ ∀ v ∈ vs, v < 0 → ¬ eps < -v) :
    (clipFrom side eps i vs).1 = none := by
  induction vs generalizing i with
  | nil => exact absurd (by simp) h
  | cons v vs ih =>
    rw [clipFrom]
    -- The entry that is too far below zero is this one or one of the rest.
    by_cases hv : v < 0 ∧ eps < -v
    · simp [hv.1, hv.2]
    · have hrest : ¬ ∀ w ∈ vs, w < 0 → ¬ eps < -w := by
        intro hall
        refine h fun w hw hneg => ?_
        rcases List.mem_cons.mp hw with rfl | hw
        · exact fun hlt => hv ⟨hneg, hlt⟩
        · exact hall w hw hneg
      have hnone := ih (i + 1) hrest
      by_cases hneg : v < 0
      · have hnoise : ¬ eps < -v := fun hlt => hv ⟨hneg, hlt⟩
        simp [hneg, hnoise, hnone]
      · simp [hneg, hnone]

theorem clip_eq_map {x : Column F} (h : x.WithinNoise eps) :
    ∃ log, clip side eps x = (some (x.map clipped), log) := by
  have hlist := clipFrom_eq_map side eps 0 x.toList fun v hv => h v (Array.mem_toList_iff.mp hv)
  refine ⟨_, Prod.ext ?_ rfl⟩
  simp [clip, hlist, ← Array.toList_map]

theorem clip_of_not_withinNoise {x : Column F} (h : ¬ x.WithinNoise eps) :
    ∃ log, clip side eps x = (none, log) := by
  have hlist := clipFrom_of_not_withinNoise side eps 0 x.toList fun hall =>
    h fun v hv => hall v (Array.mem_toList_iff.mpr hv)
  refine ⟨_, Prod.ext ?_ rfl⟩
  simp [clip, hlist]

end Clipping

/-! ## Growth after a trade -/

theorem growthLoss?_eq_none_iff (eps : F) (before after : Column F) :
    growthLoss? eps before after = none ↔
      (∀ e ∈ after, 0 < e) ∧
        before.geometricMean - eps * Scalar.max 1 before.geometricMean ≤ after.geometricMean := by
  unfold growthLoss?
  cases hfirst : after.findIdx? fun e => !(0 < e : Bool) with
  | none =>
    have hpos : ∀ e ∈ after, 0 < e := by simpa using hfirst
    rw [and_iff_right hpos]
    simp
  | some i =>
    have hneg : ¬ ∀ e ∈ after, 0 < e := by
      intro hpos
      have hnone : after.findIdx? (fun e => !(0 < e : Bool)) = none := by simpa using hpos
      rw [hfirst] at hnone
      cases hnone
    simp [hneg]

section Accepting

variable {inp : Inputs F} (hinp : inp.Sized) {t : Trade F} (ht : t.OfSize inp.assets) (eps : F)

include hinp ht

/-- A trade that passes the test becomes a decision with its own objective. -/
theorem appraise_of_eq_none
    (h : growthLoss? eps inp.growth (t.newGrowth inp.growth inp.coupling) = none) :
    ∃ log, appraise inp eps t = some (.ok (inp.decision t), log) := by
  have hafter := ht.size_newAllocation hinp.size_allocation
  rw [appraise, ht.newGrowth?_eq_some hinp.size_growth]
  simp only [Option.bind_eq_bind, Option.bind_some, h,
    ht.newAllocation?_eq_some hinp.size_allocation, hinp.objective?_eq_some hafter]
  exact ⟨_, rfl⟩

theorem appraise_of_ne_none
    (h : growthLoss? eps inp.growth (t.newGrowth inp.growth inp.coupling) ≠ none) :
    ∃ log, appraise inp eps t = some (.error .invalidSolution, log) := by
  obtain ⟨loss, hloss⟩ := Option.ne_none_iff_exists'.mp h
  rw [appraise, ht.newGrowth?_eq_some hinp.size_growth]
  simp only [Option.bind_eq_bind, Option.bind_some, hloss]
  exact ⟨_, rfl⟩

end Accepting

/-! ## Testing an answer -/

section Testing

variable {inp : Inputs F} (hinp : inp.Sized) (eps : F) {x : Column F}

include hinp

theorem accept_of_passes (h : inp.Passes eps x) :
    ∃ log, accept inp eps (x.slice 0 inp.assets) (x.slice inp.assets inp.assets) =
      some (.ok (inp.decision (x.clippedTrade inp.assets)), log) := by
  obtain ⟨log, hdelta⟩ := clip_eq_map .delta eps h.delta_noise
  obtain ⟨log', hlam⟩ := clip_eq_map .lam eps h.lam_noise
  obtain ⟨log'', happraise⟩ := appraise_of_eq_none hinp (x.ofSize_clippedTrade inp.assets) eps
    h.growthLoss_eq
  rw [Column.clippedTrade] at happraise
  simp only [accept, hdelta, hlam, happraise]
  exact ⟨_, rfl⟩

theorem accept_of_not_passes (h : ¬ inp.Passes eps x) :
    ∃ log, accept inp eps (x.slice 0 inp.assets) (x.slice inp.assets inp.assets) =
      some (.error .invalidSolution, log) := by
  by_cases hd : (x.slice 0 inp.assets).WithinNoise eps
  · obtain ⟨log, hdelta⟩ := clip_eq_map .delta eps hd
    by_cases hl : (x.slice inp.assets inp.assets).WithinNoise eps
    · obtain ⟨log', hlam⟩ := clip_eq_map .lam eps hl
      obtain ⟨log'', happraise⟩ := appraise_of_ne_none hinp (x.ofSize_clippedTrade inp.assets) eps
        fun hnone => h ⟨hd, hl, hnone⟩
      rw [Column.clippedTrade] at happraise
      simp only [accept, hdelta, hlam, happraise]
      exact ⟨_, rfl⟩
    · obtain ⟨log', hlam⟩ := clip_of_not_withinNoise .lam eps hl
      simp only [accept, hdelta, hlam]
      exact ⟨_, rfl⟩
  · obtain ⟨log, hdelta⟩ := clip_of_not_withinNoise .delta eps hd
    simp only [accept, hdelta]
    exact ⟨_, rfl⟩

end Testing

/-! ## Rebalancing -/

section Rebalance

variable {inp : Inputs F} {par : Settings F} {root : RootMethod F} {solver : ConicSolver F} {n : ℕ}

/-- What a rebalance does with the result of its solver. -/
def conclude (inp : Inputs F) (par : Settings F) (p : TradeProgram F) :
    Except SolverError (Column F) → Option (Report F)
  | .error e =>
    some { result := .error (.ofSolver e), calls := 1, log := [p.event, .solverFailed e] }
  | .ok x => do
    let (delta, lam) ← p.split? x
    let (result, log) ← accept inp par.epsClip delta lam
    some { result, calls := 1, log := p.event :: log }

theorem rebalanceBy_of_error {e : InputError F} (h : inp.validate par = .error e) :
    rebalanceBy root par solver inp =
      some { result := .error (.invalidInput e), calls := 0, log := [.refused e] } := by
  rw [rebalanceBy, h]

/-- On validated inputs a rebalance concludes from the answer of its solver to the
one program of the inputs. -/
theorem rebalanceBy_of_ok (h : inp.validate par = .ok n) :
    rebalanceBy root par solver inp =
      (solver par.solver (inp.program root par.solver.epsZero).conic).bind
        (conclude inp par (inp.program root par.solver.epsZero)) := by
  have hsome := Inputs.program?_eq_some root par.solver.epsZero (Inputs.sized_of_validate h).1
  rw [rebalanceBy, h]
  simp only [hsome, Option.bind_eq_bind, Option.bind_some]
  congr 1

theorem conclude_ok {epsZero : F} {x : Column F}
    (hsize : x.size = (inp.program root epsZero).cols) :
    conclude inp par (inp.program root epsZero) (.ok x) =
      (accept inp par.epsClip (x.slice 0 inp.assets) (x.slice inp.assets inp.assets)).map
        fun (result, log) =>
          { result, calls := 1, log := (inp.program root epsZero).event :: log } := by
  have hsplit : (inp.program root epsZero).split? x =
      some (x.slice 0 inp.assets, x.slice inp.assets inp.assets) := if_pos hsize
  rw [conclude, hsplit]
  simp only [Option.bind_eq_bind, Option.bind_some]
  cases accept inp par.epsClip (x.slice 0 inp.assets) (x.slice inp.assets inp.assets) <;> rfl

/-- Only the two leading columns of an answer count. -/
theorem conclude_congr {epsZero : F} {x y : Column F}
    (hx : x.size = (inp.program root epsZero).cols) (hy : y.size = x.size)
    (h : ∀ i < 2 * inp.assets, y.coord i = x.coord i) :
    conclude inp par (inp.program root epsZero) (.ok y) =
      conclude inp par (inp.program root epsZero) (.ok x) := by
  have hslice : ∀ start ≤ inp.assets, y.slice start inp.assets = x.slice start inp.assets := by
    intro start hstart
    apply Column.ext_coord (by simp)
    intro i hi
    have hlt : i < inp.assets := (y.size_slice start inp.assets) ▸ hi
    rw [y.coord_slice start hlt, x.coord_slice start hlt, h _ (by omega)]
  rw [conclude_ok hx, conclude_ok (hy.trans hx), hslice 0 (Nat.zero_le _), hslice inp.assets le_rfl]

/-- An answer of the length of the program's variables leads to the decision for its
clipped trade if it passes the test, and is refused otherwise. -/
theorem rebalanceBy_of_answer (hn : inp.validate par = .ok n) {x : Column F}
    (hx : solver par.solver (inp.program root par.solver.epsZero).conic = some (.ok x))
    (hsize : x.size = (inp.program root par.solver.epsZero).cols) :
    ∃ report, rebalanceBy root par solver inp = some report ∧
      (inp.Passes par.epsClip x →
        report.result = .ok (inp.decision (x.clippedTrade inp.assets))) ∧
      (¬ inp.Passes par.epsClip x → report.result = .error .invalidSolution) := by
  have hinp := (Inputs.sized_of_validate hn).1
  rw [rebalanceBy_of_ok hn, hx, Option.bind_some, conclude_ok hsize]
  by_cases h : inp.Passes par.epsClip x
  · obtain ⟨log, haccept⟩ := accept_of_passes hinp par.epsClip h
    rw [haccept]
    exact ⟨_, rfl, fun _ => rfl, absurd h⟩
  · obtain ⟨log, haccept⟩ := accept_of_not_passes hinp par.epsClip h
    rw [haccept]
    exact ⟨_, rfl, fun hpasses => absurd hpasses h, fun _ => rfl⟩

/-- What led to a report: inputs that validation refuses, a solver that fails, or an
answer of the length of the program's variables, put to the test. -/
theorem rebalanceBy_cases {report : Report F} (h : rebalanceBy root par solver inp = some report) :
    (∃ e, inp.validate par = .error e ∧ report.result = .error (.invalidInput e)) ∨
    (∃ e, report.result = .error (.ofSolver e)) ∨
    ∃ x, inp.validate par = .ok inp.assets ∧
      solver par.solver (inp.program root par.solver.epsZero).conic = some (.ok x) ∧
      x.size = (inp.program root par.solver.epsZero).cols ∧
      (inp.Passes par.epsClip x ∧ report.result = .ok (inp.decision (x.clippedTrade inp.assets)) ∨
        report.result = .error .invalidSolution) := by
  cases hvalid : inp.validate par with
  | error e =>
    rw [rebalanceBy_of_error hvalid] at h
    cases h
    exact .inl ⟨e, rfl, rfl⟩
  | ok n =>
    obtain ⟨-, rfl⟩ := Inputs.sized_of_validate hvalid
    have hconclude := h
    rw [rebalanceBy_of_ok hvalid] at hconclude
    obtain ⟨answer, hanswer, hconclude⟩ := Option.bind_eq_some_iff.mp hconclude
    cases answer with
    | error e =>
      cases hconclude
      exact .inr (.inl ⟨e, rfl⟩)
    | ok x =>
      -- An answer of another length has no columns to test, and so no report.
      have hsize : x.size = (inp.program root par.solver.epsZero).cols := by
        by_contra hne
        rw [conclude, TradeProgram.split?, if_neg hne] at hconclude
        cases hconclude
      obtain ⟨report', hreport', hpasses, hrefused⟩ := rebalanceBy_of_answer hvalid hanswer hsize
      obtain rfl := Option.some.inj (hreport'.symm.trans h)
      refine .inr (.inr ⟨x, rfl, hanswer, hsize, ?_⟩)
      by_cases hx : inp.Passes par.epsClip x
      · exact .inl ⟨hx, hpasses hx⟩
      · exact .inr (hrefused hx)

/-- A decision is made for the clipped trade of an answer that passes the test, on
validated inputs. -/
theorem exists_answer_of_ok {report : Report F} {d : Decision F}
    (h : rebalanceBy root par solver inp = some report) (hd : report.result = .ok d) :
    ∃ x, inp.validate par = .ok inp.assets ∧
      solver par.solver (inp.program root par.solver.epsZero).conic = some (.ok x) ∧
      x.size = (inp.program root par.solver.epsZero).cols ∧ inp.Passes par.epsClip x ∧
      d = inp.decision (x.clippedTrade inp.assets) := by
  obtain ⟨e, -, he⟩ | ⟨e, he⟩ | ⟨x, hvalid, hanswer, hsize, hpasses⟩ := rebalanceBy_cases h
  · cases hd.symm.trans he
  · cases hd.symm.trans he
  · rcases hpasses with ⟨hx, hdecision⟩ | hrefused
    · exact ⟨x, hvalid, hanswer, hsize, hx, Except.ok.inj (hd.symm.trans hdecision)⟩
    · cases hd.symm.trans hrefused

/-- Nothing but validation refuses inputs. -/
theorem validate_eq_error {report : Report F} {e : InputError F}
    (h : rebalanceBy root par solver inp = some report)
    (he : report.result = .error (.invalidInput e)) : inp.validate par = .error e := by
  obtain ⟨e', hvalid, he'⟩ | ⟨e', he'⟩ | ⟨x, -, -, -, hpasses⟩ := rebalanceBy_cases h
  · cases he.symm.trans he'
    exact hvalid
  · cases e' <;> cases he.symm.trans he'
  · rcases hpasses with ⟨-, hdecision⟩ | hrefused
    · cases he.symm.trans hdecision
    · cases he.symm.trans hrefused

end Rebalance

end Rebalancing
