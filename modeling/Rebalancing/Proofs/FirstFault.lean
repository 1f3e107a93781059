-- SUMMARY: Validation accepts the inputs that meet all requirements, and of all others reports the first requirement that they fail.
import Mathlib
import Rebalancing.Proofs.Checked.Inputs
import Rebalancing.Proofs.MachineFloat

/-!
# First faults

Inputs must meet a list of requirements: on sizes, on finite values, on signs, on the
symmetry of the covariance and on its eigenvalues. Validation tests for what is against
them, one after the other, and reads a later requirement off data whose size and values
the earlier ones have settled. So on scalars in order it accepts just the inputs that meet
all requirements, and its error names the first one that fails and where it does.
-/

namespace Rebalancing

/-! ## Requirements -/

/-- A condition on inputs, and the errors that report that it fails. -/
structure Requirement (F : Type) where
  holds : Prop
  reports : InputError F → Prop

namespace Requirement

variable {F : Type}

/-- A condition with one error. -/
def plain (holds : Prop) (error : InputError F) : Requirement F where
  holds
  reports e := e = error

/-- The error reports the first of the requirements that fails. -/
inductive FirstFault : List (Requirement F) → InputError F → Prop where
  | here {r : Requirement F} {rs : List (Requirement F)} {e : InputError F} :
      ¬ r.holds → r.reports e → FirstFault (r :: rs) e
  | later {r : Requirement F} {rs : List (Requirement F)} {e : InputError F} :
      r.holds → FirstFault rs e → FirstFault (r :: rs) e

/-- A check finds nothing where the requirement holds, and else what reports that it
fails. -/
structure CheckedBy (r : Requirement F) (fault? : Option (InputError F)) : Prop where
  eq_none_iff : fault? = none ↔ r.holds
  eq_some_iff (e : InputError F) : fault? = some e ↔ ¬ r.holds ∧ r.reports e

/-- A check finds nothing where all requirements hold, and else what reports the first
one that fails. -/
structure DecidedBy (rs : List (Requirement F)) (fault? : Option (InputError F)) : Prop where
  eq_none_iff : fault? = none ↔ ∀ r ∈ rs, r.holds
  eq_some_iff (e : InputError F) : fault? = some e ↔ FirstFault rs e

section Checks

variable {r : Requirement F} {rs : List (Requirement F)} {check rest : Option (InputError F)}

/-- One check after another: the later ones count only where the first requirement
holds. -/
theorem CheckedBy.cons (h : r.CheckedBy check) (hrest : r.holds → DecidedBy rs rest) :
    DecidedBy (r :: rs) (check <|> rest) := by
  by_cases hr : r.holds
  · have hnone : (check <|> rest) = rest := by rw [h.eq_none_iff.mpr hr]; rfl
    rw [hnone]
    refine ⟨?_, fun e => ?_⟩
    · rw [(hrest hr).eq_none_iff, List.forall_mem_cons, and_iff_right hr]
    · rw [(hrest hr).eq_some_iff]
      refine ⟨.later hr, fun hfault => ?_⟩
      cases hfault with
      | here hnot _ => exact absurd hr hnot
      | later _ hfault => exact hfault
  · obtain ⟨e₀, he₀⟩ := Option.ne_none_iff_exists'.mp (mt h.eq_none_iff.mp hr)
    have hsome : (check <|> rest) = check := by rw [he₀]; rfl
    rw [hsome]
    refine ⟨?_, fun e => ?_⟩
    · rw [h.eq_none_iff, List.forall_mem_cons]
      exact ⟨fun hholds => absurd hholds hr, And.left⟩
    · rw [h.eq_some_iff]
      refine ⟨fun hreport => .here hr hreport.2, fun hfault => ?_⟩
      cases hfault with
      | here hnot hreport => exact ⟨hnot, hreport⟩
      | later hholds _ => exact absurd hholds hr

theorem CheckedBy.single (h : r.CheckedBy check) : DecidedBy [r] check := by
  have hnil : DecidedBy ([] : List (Requirement F)) none := by
    refine ⟨by simp, fun e => ⟨fun h => ?_, fun h => ?_⟩⟩ <;> cases h
  simpa using h.cons fun _ => hnil

theorem checkedBy_of_iff {P Q : Prop} [Decidable Q] (h : Q ↔ P) (e : InputError F) :
    (plain P e).CheckedBy (if Q then none else some e) where
  eq_none_iff := by simpa [plain] using h
  eq_some_iff e' := by simp [plain, h, eq_comm]

theorem checkedBy_of_not_iff {P Q : Prop} [Decidable Q] (h : ¬ Q ↔ P) (e : InputError F) :
    (plain P e).CheckedBy (if Q then some e else none) where
  eq_none_iff := by simpa [plain] using h
  eq_some_iff e' := by simp [plain, ← h, eq_comm]

/-- A check that finds nothing just where the requirement holds, and whose findings are
reports, where one report is all there is. -/
theorem checkedBy_of_unique (hnone : check = none ↔ r.holds)
    (hsome : ∀ e, check = some e → r.reports e)
    (hunique : ∀ e e', r.reports e → r.reports e' → e = e') : r.CheckedBy check where
  eq_none_iff := hnone
  eq_some_iff e := by
    constructor
    · intro h
      refine ⟨fun hholds => ?_, hsome e h⟩
      rw [hnone.mpr hholds] at h
      cases h
    · rintro ⟨hnot, he⟩
      obtain ⟨e', he'⟩ := Option.ne_none_iff_exists'.mp (mt hnone.mp hnot)
      rw [he', hunique e e' he (hsome e' he')]

end Checks

end Requirement

/-! ## Searches -/

/-- A search through the indices below a bound finds the least one. -/
theorem isLeast_of_find?_range {n i : ℕ} {p : ℕ → Bool} (h : (List.range n).find? p = some i) :
    IsLeast {i | i < n ∧ p i = true} i := by
  obtain ⟨hi, hmem, hbefore⟩ := List.find?_range_eq_some.mp h
  refine ⟨⟨List.mem_range.mp hmem, hi⟩, fun j hj => ?_⟩
  by_contra hlt
  simpa [hj.2] using hbefore j (not_le.mp hlt)

/-- In a range, what is less than a member stands before it. -/
theorem mem_before_of_lt {n c i : ℕ} {before after : List ℕ}
    (h : List.range n = before ++ c :: after) (hi : i < n) (hic : i < c) : i ∈ before := by
  have hmem : i ∈ before ++ c :: after := h ▸ List.mem_range.mpr hi
  have hascends : (before ++ c :: after).Pairwise (· < ·) := h ▸ List.pairwise_lt_range
  obtain ⟨hafter, -⟩ := List.pairwise_cons.mp (List.pairwise_append.mp hascends).2.1
  rcases List.mem_append.mp hmem with hbefore | hrest
  · exact hbefore
  · rcases List.mem_cons.mp hrest with rfl | hlater
    · exact absurd hic (lt_irrefl _)
    · exact absurd (hafter i hlater) hic.asymm

/-- A search through the pairs under a bound, the second index below the first, finds the
one that comes first by its first index and then by its second. -/
theorem isLeast_of_findSome?_range {α : Type} {n : ℕ} {p : ℕ → ℕ → Bool} {g : ℕ → ℕ → α} {a : α}
    (h : (List.range n).findSome? (fun c => ((List.range c).find? (p c)).map (g c)) = some a) :
    ∃ c r, IsLeast {i : ℕ ×ₗ ℕ | (ofLex i).1 < n ∧ (ofLex i).2 < (ofLex i).1 ∧
      p (ofLex i).1 (ofLex i).2 = true} (toLex (c, r)) ∧ a = g c r := by
  obtain ⟨before, c, after, hrange, hfound, hbefore⟩ := List.findSome?_eq_some_iff.mp h
  obtain ⟨r, hr, rfl⟩ := Option.map_eq_some_iff.mp hfound
  obtain ⟨⟨hrc, hp⟩, hleast⟩ := isLeast_of_find?_range hr
  have hc : c < n := List.mem_range.mp (hrange ▸ by simp)
  refine ⟨c, r, ⟨⟨hc, hrc, hp⟩, fun i hi => ?_⟩, rfl⟩
  obtain ⟨hin, hilt, hip⟩ := hi
  rw [Prod.Lex.le_iff]
  rcases lt_trichotomy c (ofLex i).1 with hlt | heq | hgt
  · exact .inl hlt
  · refine .inr ⟨heq, hleast ⟨heq ▸ hilt, ?_⟩⟩
    rw [← heq] at hip
    exact hip
  · have hnone := List.find?_eq_none.mp
      (Option.map_eq_none_iff.mp (hbefore _ (mem_before_of_lt hrange (hgt.trans hc) hgt)))
    exact absurd hip (hnone _ (List.mem_range.mpr hilt))

/-! ## Cells of a covariance -/

theorem SymMatrix.mem_packed_iff {F : Type} [Scalar F] {m : SymMatrix F} {e : F} :
    e ∈ m.packed ↔ ∃ i j, i ≤ j ∧ j < m.order ∧ m.upper i j = e := by
  rw [packed, Array.mem_flatten]
  constructor
  · rintro ⟨column, hmem, he⟩
    obtain ⟨j, hj, rfl⟩ := Array.mem_iff_getElem.mp hmem
    obtain ⟨i, hi, rfl⟩ := Array.mem_iff_getElem.mp he
    have hij : i < j + 1 := m.size_column j hj ▸ hi
    refine ⟨i, j, Nat.le_of_lt_succ hij, hj, ?_⟩
    rw [upper_eq_coord hj, Column.coord_eq_getElem hi]
  · rintro ⟨i, j, hij, hj, rfl⟩
    have hi : i < m.columns[j].size := by
      rw [m.size_column j hj]
      omega
    refine ⟨m.columns[j], Array.getElem_mem hj, ?_⟩
    rw [upper_eq_coord hj, Column.coord_eq_getElem hi]
    exact Array.getElem_mem hi

namespace Covariance

section Cells

variable {F : Type} [Scalar F] {s : Covariance F} {n : ℕ}

/-- The stored cells are those of all rows and columns. -/
theorem forall_mem_cells_iff (h : s.size = (n, n)) (P : F → Prop) :
    (∀ e ∈ s.cells, P e) ↔ ∀ r < n, ∀ c < n, P (s.entry r c) := by
  cases s with
  | full m =>
    obtain ⟨hrows, hcols⟩ : m.rows = n ∧ m.cols = n := Prod.mk.inj h
    rw [cells, Column.forall_mem_iff, m.size_cells, hrows, hcols]
    constructor
    · intro hcells r hr c hc
      rw [entry, RectMatrix.entry, hrows]
      exact hcells _ (RectMatrix.place_lt hr hc)
    · intro hcells k hk
      have hn : 0 < n := Nat.pos_of_mul_pos_right (Nat.zero_lt_of_lt hk)
      have hcell := hcells (k % n) (Nat.mod_lt k hn) (k / n) (Nat.div_lt_of_lt_mul hk)
      rwa [entry, RectMatrix.entry, hrows, Nat.div_add_mod'] at hcell
  | packed m =>
    have horder : m.order = n := congrArg Prod.fst h
    constructor
    · intro hcells r hr c hc
      rw [entry, SymMatrix.entry]
      split
      · exact hcells _ (SymMatrix.mem_packed_iff.mpr ⟨r, c, ‹_›, horder ▸ hc, rfl⟩)
      · exact hcells _ (SymMatrix.mem_packed_iff.mpr ⟨c, r, by omega, horder ▸ hr, rfl⟩)
    · intro hcells e he
      obtain ⟨i, j, hij, hj, rfl⟩ := SymMatrix.mem_packed_iff.mp he
      have hcell := hcells i (by omega) j (by omega)
      rwa [entry, SymMatrix.entry, if_pos hij] at hcell

/-- Opposite cells differ by no more than the tolerance, relative to the largest of one
and the two. -/
def SymmetricAt (s : Covariance F) (tol : F) (r c : ℕ) : Prop :=
  Scalar.abs (s.entry r c - s.entry c r) ≤
    tol * Scalar.max (Scalar.max 1 (Scalar.abs (s.entry r c))) (Scalar.abs (s.entry c r))

theorem isAsymmetric_iff [OrderedScalar F] {tol : F} (htol : Scalar.isNaN tol = false) {r c : ℕ}
    (hrc : Scalar.isFinite (s.entry r c) = true) (hcr : Scalar.isFinite (s.entry c r) = true) :
    Inputs.isAsymmetric tol (s.entry r c) (s.entry c r) = true ↔ ¬ s.SymmetricAt tol r c := by
  obtain ⟨hfinite, hpos⟩ := OrderedScalar.max_one_abs hrc hcr
  have hallowed := OrderedScalar.isNaN_mul htol hfinite hpos
  have hdiffer := OrderedScalar.isNaN_abs (OrderedScalar.isNaN_sub hrc hcr)
  rw [SymmetricAt, OrderedScalar.not_le_iff hdiffer hallowed, Inputs.isAsymmetric,
    decide_eq_true_iff]

end Cells

end Covariance

/-! ## Requirements on inputs -/

namespace Inputs

section Requirements

variable {F : Type} [Scalar F]

open Requirement

/-- Every growth proxy is above zero. -/
def growing (growth : Column F) : Requirement F where
  holds := ∀ i < growth.size, 0 < growth.coord i
  reports e := ∃ i, IsLeast {i | i < growth.size ∧ ¬ 0 < growth.coord i} i ∧
    e = .nonPositiveGrowth i

/-- The opposite cells of a full covariance differ by no more than the tolerance. Pairs of
cells are in order by the column, and then by the row, of the one above the diagonal. -/
def symmetric (tol : F) (n : ℕ) (s : Covariance F) : Requirement F where
  holds := s.packed? = none → ∀ c < n, ∀ r < c, s.SymmetricAt tol r c
  reports e := ∃ c r, IsLeast {i : ℕ ×ₗ ℕ | (ofLex i).1 < n ∧ (ofLex i).2 < (ofLex i).1 ∧
    ¬ s.SymmetricAt tol (ofLex i).2 (ofLex i).1} (toLex (c, r)) ∧ e = .asymmetric r c

/-- What inputs must meet, in the order in which it is tested. -/
def requirements (inp : Inputs F) (par : Settings F) : List (Requirement F) :=
  let n := inp.assets
  let range := inp.covariance.symmetrize.spectralRange par.solver.epsZero
  [plain (1 ≤ n) .empty,
    plain (inp.covariance.size = (n, n))
      (.sizeMismatch .covariance (n, n) inp.covariance.size),
    plain (inp.allocation.size = n) (.sizeMismatch .allocation (n, 1) (inp.allocation.size, 1)),
    plain (inp.growth.size = n) (.sizeMismatch .growth (n, 1) (inp.growth.size, 1)),
    plain (∀ e ∈ inp.returns, Scalar.isFinite e = true) (.nonFinite .returns),
    plain (∀ r < n, ∀ c < n, Scalar.isFinite (inp.covariance.entry r c) = true)
      (.nonFinite .covariance),
    plain (Scalar.isFinite inp.riskAversion = true) (.nonFinite .riskAversion),
    plain (Scalar.isFinite inp.coupling = true) (.nonFinite .coupling),
    plain (∀ e ∈ inp.allocation, Scalar.isFinite e = true) (.nonFinite .allocation),
    plain (∀ e ∈ inp.growth, Scalar.isFinite e = true) (.nonFinite .growth),
    plain (0 ≤ inp.riskAversion) .negativeRiskAversion,
    growing inp.growth,
    symmetric par.symTol n inp.covariance,
    plain (¬ range.least < -par.psdTol * Scalar.max 1 range.maxAbs) (.indefinite range.least)]

/-- The inputs meet all requirements. -/
def Admissible (inp : Inputs F) (par : Settings F) : Prop :=
  ∀ r ∈ inp.requirements par, r.holds

end Requirements

/-! ## Checks of the requirements -/

section Checks

variable {F : Type} [Scalar F]

open Requirement

omit [Scalar F] in
theorem checkedBy_sizeFault? {datum : Datum} {expected actual : ℕ × ℕ} {P : Prop}
    (h : expected = actual ↔ P) :
    (plain P (.sizeMismatch datum expected actual)).CheckedBy
      (sizeFault? (F := F) datum expected actual) :=
  checkedBy_of_iff h _

theorem checkedBy_finiteFault? {datum : Datum} {values : Column F} {P : Prop}
    (h : (∀ e ∈ values, Scalar.isFinite e = true) ↔ P) :
    (plain P (.nonFinite datum)).CheckedBy (finiteFault? datum values) :=
  checkedBy_of_iff (Array.all_eq_true_iff_forall_mem.trans h) _

variable [OrderedScalar F]

theorem checkedBy_growthFault? {growth : Column F}
    (hfinite : ∀ e ∈ growth, Scalar.isFinite e = true) :
    (growing growth).CheckedBy (growthFault? growth) := by
  have hpos : ∀ i < growth.size, ¬ growth.coord i ≤ 0 ↔ 0 < growth.coord i := fun i hi =>
    OrderedScalar.pos_iff ((Column.forall_mem_iff growth _).mp hfinite i hi)
  refine checkedBy_of_unique ?_ (fun e h => ?_) ?_
  · rw [growthFault?_eq_none_iff, Column.forall_mem_iff]
    exact forall₂_congr hpos
  · obtain ⟨i, hfound, rfl⟩ := Option.map_eq_some_iff.mp h
    obtain ⟨hi, hle, hbefore⟩ := Array.findIdx?_eq_some_iff_getElem.mp hfound
    refine ⟨i, ⟨⟨hi, ?_⟩, fun j hj => ?_⟩, rfl⟩
    · rw [← hpos i hi, not_not, Column.coord_eq_getElem hi]
      exact of_decide_eq_true hle
    · by_contra hlt
      have hnot := hbefore j (not_le.mp hlt)
      rw [decide_eq_true_iff, ← Column.coord_eq_getElem hj.1, hpos j hj.1] at hnot
      exact hj.2 hnot
  · rintro e e' ⟨i, hi, rfl⟩ ⟨i', hi', rfl⟩
    rw [hi.unique hi']

theorem checkedBy_symmetryFault? {tol : F} (htol : Scalar.isNaN tol = false) {n : ℕ}
    {s : Covariance F} (hfinite : ∀ r < n, ∀ c < n, Scalar.isFinite (s.entry r c) = true) :
    (symmetric tol n s).CheckedBy (symmetryFault? tol n s) := by
  have hunique : ∀ e e', (symmetric tol n s).reports e → (symmetric tol n s).reports e' →
      e = e' := by
    rintro e e' ⟨c, r, hcell, rfl⟩ ⟨c', r', hcell', rfl⟩
    obtain ⟨rfl, rfl⟩ := Prod.mk.inj (toLex.injective (hcell.unique hcell'))
    rfl
  cases s with
  | packed m =>
    refine checkedBy_of_unique ⟨fun _ hfull => ?_, fun _ => rfl⟩ (fun e h => ?_) hunique
    · cases hfull
    · cases h
  | full m =>
    have htest : ∀ c < n, ∀ r < c, isAsymmetric tol (m.entry r c) (m.entry c r) = true ↔
        ¬ (Covariance.full m).SymmetricAt tol r c := fun c hc r hr =>
      Covariance.isAsymmetric_iff (s := .full m) htol (hfinite r (hr.trans hc) c hc)
        (hfinite c hc r (hr.trans hc))
    refine checkedBy_of_unique ?_ (fun e h => ?_) hunique
    · have hcell : ∀ c < n, ∀ r < c, isAsymmetric tol (m.entry r c) (m.entry c r) = false ↔
          (Covariance.full m).SymmetricAt tol r c := fun c hc r hr => by
        rw [← Bool.not_eq_true, htest c hc r hr, not_not]
      simp only [symmetryFault?, List.findSome?_eq_none_iff, List.mem_range, Option.map_eq_none_iff,
        List.find?_eq_none, Bool.not_eq_true, symmetric, Covariance.packed?, forall_const]
      exact forall₂_congr fun c hc => forall₂_congr (hcell c hc)
    · obtain ⟨c, r, hleast, rfl⟩ := isLeast_of_findSome?_range h
      refine ⟨c, r, ?_, rfl⟩
      convert hleast using 1
      ext i
      exact and_congr_right fun hc => and_congr_right fun hr => (htest _ hc _ hr).symm

/-- The checks decide the requirements in order. -/
theorem decidedBy_fault? (inp : Inputs F) {par : Settings F}
    (htol : Scalar.isNaN par.symTol = false) :
    DecidedBy (inp.requirements par) (inp.fault? par) := by
  refine (checkedBy_of_not_iff Nat.one_le_iff_ne_zero.symm _).cons fun _ => ?_
  refine (checkedBy_sizeFault? eq_comm).cons fun hsize => ?_
  refine (checkedBy_sizeFault? (by simp [eq_comm])).cons fun _ => ?_
  refine (checkedBy_sizeFault? (by simp [eq_comm])).cons fun _ => ?_
  refine (checkedBy_finiteFault? Iff.rfl).cons fun _ => ?_
  refine (checkedBy_finiteFault? (Covariance.forall_mem_cells_iff hsize _)).cons fun hcells => ?_
  refine (checkedBy_finiteFault? (by simp)).cons fun hrisk => ?_
  refine (checkedBy_finiteFault? (by simp)).cons fun _ => ?_
  refine (checkedBy_finiteFault? Iff.rfl).cons fun _ => ?_
  refine (checkedBy_finiteFault? Iff.rfl).cons fun hgrowth => ?_
  refine (checkedBy_of_not_iff (OrderedScalar.nonneg_iff hrisk) _).cons fun _ => ?_
  refine (checkedBy_growthFault? hgrowth).cons fun _ => ?_
  refine (checkedBy_symmetryFault? htol hcells).cons fun _ => ?_
  exact (checkedBy_of_not_iff Iff.rfl _).single

/-- Validation accepts the inputs that meet all requirements, and of others it reports the
first requirement that they fail; no read of it is out of range. -/
theorem validate_outcome (inp : Inputs F) (par : Settings F)
    (htol : Scalar.isNaN par.symTol = false) :
    Checked.validate? inp par = some (inp.validate par) ∧
      (∀ n, inp.validate par = .ok n ↔ n = inp.assets ∧ inp.Admissible par) ∧
      ∀ e, inp.validate par = .error e ↔ FirstFault (inp.requirements par) e := by
  have hdecided := decidedBy_fault? inp htol
  refine ⟨Checked.validate?_eq inp par, fun n => ?_, fun e => ?_⟩
  · rw [validate_eq_ok_iff, hdecided.eq_none_iff, Admissible]
  · rw [validate_eq_error_iff, hdecided.eq_some_iff]

end Checks

/-- A covariance that is neither symmetric nor, in its symmetric part, without an
eigenvalue below zero. -/
def lopsided : Inputs Float where
  returns := #[1, 1]
  covariance := .full (.ofFn 2 2 fun r c => if r < c then 4 else if r = c then 1 else 0)
  riskAversion := 1
  coupling := 1
  allocation := #[1, 1]
  growth := #[1, 1]

theorem validate_lopsided :
    Scalar.isNaN (Settings.default (F := Float)).symTol = false ∧
      Requirement.FirstFault (lopsided.requirements Settings.default) (.asymmetric 0 1) := by
  have htol : Scalar.isNaN (Settings.default (F := Float)).symTol = false := by decide
  refine ⟨htol, ((validate_outcome lopsided Settings.default htol).2.2 _).mp ?_⟩
  -- The logical model of floats computes.
  with_unfolding_all rfl

end Inputs

end Rebalancing
