-- SUMMARY: The symmetric part, the variance and the validation of inputs with every read checked, for inputs of any sizes and any values.
import Mathlib
import Rebalancing.Objective
import Rebalancing.Proofs.Checked.Cells
import Rebalancing.Proofs.Validation

/-!
# Checked inputs

Here the inputs are validated and valued by checked reads. Validation finds sizes that do
not match before it reads a cell by its row and column, so every read that it gets to is
in range, whatever the inputs are.
-/

namespace Rebalancing

namespace Checked

variable {F : Type} [Scalar F]

/-! ## Covariances -/

/-- The symmetric part of a square covariance. -/
def symmetrize? : Covariance F → Option (SymMatrix F)
  | .packed m => some m
  | .full m =>
    if m.rows = m.cols then
      SymMatrix.ofFn? m.rows fun i j => do
        let above ← m.cell? i j
        let below ← m.cell? j i
        some ((above + below) * Scalar.half)
    else none

theorem symmetrize?_eq (s : Covariance F) : symmetrize? s = s.symmetrize? := by
  cases s with
  | packed m => exact (if_pos rfl).symm
  | full m =>
    rw [symmetrize?, Covariance.symmetrize?, Covariance.size]
    split
    · refine SymMatrix.ofFn?_eq_some
        (g := fun i j => (m.entry i j + m.entry j i) * Scalar.half) fun i j hij hj => ?_
      have hi : i < m.rows := hij.trans_lt hj
      rw [RectMatrix.cell?_eq_some hi (by omega), RectMatrix.cell?_eq_some hj (by omega)]
      rfl
    · rfl

theorem symmetrize?_eq_some {s : Covariance F} {n : ℕ} (h : s.size = (n, n)) :
    symmetrize? s = some s.symmetrize := by
  rw [symmetrize?_eq, Covariance.symmetrize?_eq_some h]

/-- The variance of an allocation of the covariance's size. -/
def quadForm? (s : Covariance F) (z : Column F) : Option F :=
  if s.size = (z.size, z.size) then
    (List.range z.size).foldlM (fun acc c =>
      sumFrom? acc z.size fun r => do
        let left ← z[r]?
        let cell ← s.cell? r c
        let right ← z[c]?
        some (left * cell * right)) 0
  else none

theorem quadForm?_eq (s : Covariance F) (z : Column F) : quadForm? s z = s.quadForm? z := by
  rw [quadForm?, Covariance.quadForm?]
  split
  · have hsize : s.size = (z.size, z.size) := ‹_›
    refine foldlM_range (g := fun c acc =>
      sumFrom acc z.size fun r => z.coord r * s.entry r c * z.coord c) (fun c hc acc => ?_) 0
    refine sumFrom?_eq_some (fun r hr => ?_) acc
    rw [Column.getElem?_eq_some hr, Covariance.cell?_eq_some hsize hr hc,
      Column.getElem?_eq_some hc]
    rfl
  · rfl

/-- Expected return less risk aversion times variance, for an allocation of the same
assets. -/
def objective? (returns : Column F) (covariance : Covariance F) (riskAversion : F)
    (z : Column F) : Option F :=
  if returns.size = z.size then do
    let variance ← quadForm? covariance z
    some (expectedReturn returns z - riskAversion * variance)
  else none

theorem objective?_eq (returns : Column F) (covariance : Covariance F) (riskAversion : F)
    (z : Column F) :
    objective? returns covariance riskAversion z =
      Rebalancing.objective? returns covariance riskAversion z := by
  rw [objective?, Rebalancing.objective?, quadForm?_eq, Covariance.quadForm?, ite_and]
  split
  · split <;> rfl
  · rfl

/-! ## Validation -/

/-- The first fault that shows in the sizes, in a value, or in a sign. -/
def plainFault? (inp : Inputs F) : Option (InputError F) :=
  let n := inp.assets
  (if n = 0 then some .empty else none)
  <|> Inputs.sizeFault? .covariance (n, n) inp.covariance.size
  <|> Inputs.sizeFault? .allocation (n, 1) (inp.allocation.size, 1)
  <|> Inputs.sizeFault? .growth (n, 1) (inp.growth.size, 1)
  <|> Inputs.finiteFault? .returns inp.returns
  <|> Inputs.finiteFault? .covariance inp.covariance.cells
  <|> Inputs.finiteFault? .riskAversion #[inp.riskAversion]
  <|> Inputs.finiteFault? .coupling #[inp.coupling]
  <|> Inputs.finiteFault? .allocation inp.allocation
  <|> Inputs.finiteFault? .growth inp.growth
  <|> (if inp.riskAversion < 0 then some .negativeRiskAversion else none)
  <|> Inputs.growthFault? inp.growth

/-- The fault of the first cell above the diagonal that differs from the one opposite
to it. -/
def symmetryFault? (tol : F) (n : ℕ) : Covariance F → Option (Option (InputError F))
  | .packed _ => some none
  | .full m =>
    (List.range n).findSomeM? fun c => do
      let row ← (List.range c).findM? fun r => do
        let above ← m.cell? r c
        let below ← m.cell? c r
        some (Inputs.isAsymmetric tol above below)
      some (row.map fun r => .asymmetric r c)

/-- The fault of a covariance with an eigenvalue below zero. -/
def definiteFault? (tol eps : F) (covariance : Covariance F) : Option (Option (InputError F)) := do
  let symmetric ← symmetrize? covariance
  let range := symmetric.spectralRange eps
  some (if range.least < -tol * Scalar.max 1 range.maxAbs then some (.indefinite range.least)
    else none)

/-- The first fault of the inputs; cells are read only where no plain fault shows. -/
def fault? (inp : Inputs F) (par : Settings F) : Option (Option (InputError F)) :=
  match plainFault? inp with
  | some e => some (some e)
  | none => do
    match ← symmetryFault? par.symTol inp.assets inp.covariance with
    | some e => some (some e)
    | none => definiteFault? par.psdTol par.solver.epsZero inp.covariance

/-- The number of assets of inputs without a fault, or their first fault. -/
def validate? (inp : Inputs F) (par : Settings F) : Option (Except (InputError F) ℕ) := do
  match ← fault? inp par with
  | some e => some (.error e)
  | none => some (.ok inp.assets)

section Validation

variable {inp : Inputs F} {par : Settings F}

theorem fault?_eq_orElse :
    inp.fault? par =
      (plainFault? inp <|> Inputs.symmetryFault? par.symTol inp.assets inp.covariance
        <|> Inputs.definiteFault? par.psdTol par.solver.epsZero inp.covariance) := by
  simp only [Inputs.fault?, plainFault?, Option.orElse_eq_orElse, Option.orElse_eq_or,
    Option.or_assoc]

theorem size_covariance_of_plainFault? (h : plainFault? inp = none) :
    inp.covariance.size = (inp.assets, inp.assets) := by
  simp only [plainFault?, Option.orElse_eq_none, Inputs.sizeFault?_eq_none_iff] at h
  exact h.2.1.symm

theorem symmetryFault?_eq_some {s : Covariance F} {n : ℕ} (h : s.size = (n, n)) (tol : F) :
    symmetryFault? tol n s = some (Inputs.symmetryFault? tol n s) := by
  cases s with
  | packed m => rfl
  | full m =>
    have hrows : m.rows = n := congrArg Prod.fst h
    have hcols : m.cols = n := congrArg Prod.snd h
    refine findSomeM?_eq_some fun c hc => ?_
    have hc : c < n := List.mem_range.mp hc
    have htest : ∀ r ∈ List.range c, (do
        let above ← m.cell? r c
        let below ← m.cell? c r
        some (Inputs.isAsymmetric tol above below)) =
          some (Inputs.isAsymmetric tol (m.entry r c) (m.entry c r)) := by
      intro r hr
      have hr : r < n := (List.mem_range.mp hr).trans hc
      rw [RectMatrix.cell?_eq_some (by omega) (by omega),
        RectMatrix.cell?_eq_some (by omega) (by omega)]
      rfl
    rw [findM?_eq_some htest]
    rfl

theorem definiteFault?_eq_some {s : Covariance F} {n : ℕ} (h : s.size = (n, n)) (tol eps : F) :
    definiteFault? tol eps s = some (Inputs.definiteFault? tol eps s) := by
  rw [definiteFault?, symmetrize?_eq_some h]
  rfl

theorem fault?_eq (inp : Inputs F) (par : Settings F) : fault? inp par = some (inp.fault? par) := by
  rw [fault?_eq_orElse, fault?]
  cases hplain : plainFault? inp with
  | some e => rfl
  | none =>
    have hsize := size_covariance_of_plainFault? hplain
    simp only [symmetryFault?_eq_some hsize, definiteFault?_eq_some hsize, Option.bind_eq_bind,
      Option.bind_some]
    cases Inputs.symmetryFault? par.symTol inp.assets inp.covariance <;> rfl

/-- Validation by checked reads is validation, for inputs of any sizes and values. -/
theorem validate?_eq (inp : Inputs F) (par : Settings F) :
    validate? inp par = some (inp.validate par) := by
  rw [validate?, fault?_eq, Option.bind_eq_bind, Option.bind_some, Inputs.validate]
  cases inp.fault? par <;> rfl

end Validation

end Checked

end Rebalancing
