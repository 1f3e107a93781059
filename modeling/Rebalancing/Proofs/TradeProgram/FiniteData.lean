-- SUMMARY: When the data of a trade program is finite on machine floats: exactly where, and within which magnitudes of the inputs.
import Mathlib
import Rebalancing.Proofs.Conic.FiniteDense
import Rebalancing.Proofs.MachineFloat.Packing
import Rebalancing.Proofs.TradeProgram.AbsoluteSums
import Rebalancing.Proofs.Validation

/-!
# Finite data

Validation checks that the inputs are finite, and what is made of them can still be too
large. Of the operators of a trade program only three parts are computed in a way that
leaves what is finite: the scaled root of the covariance, its product with the current
allocation, and the floor of the growth tree. The rest of the cells are inputs or small
constants. So the program is finite exactly if these parts are, and they are as long as
the inputs are of moderate size.
-/

namespace Rebalancing

open RoundedScalar

variable {F : Type} [Scalar F]

/-! ## Matrices -/

/-- Every stored cell is finite. -/
def SymMatrix.AllFinite (m : SymMatrix F) : Prop :=
  ∀ i j, i ≤ j → j < m.order → Scalar.isFinite (m.upper i j) = true

/-- Every entry is finite. -/
def Column.AllFinite (x : Column F) : Prop := ∀ e ∈ x, Scalar.isFinite e = true

namespace BlockBody

theorem allFinite_sym {m : SymMatrix F} : (sym m).AllFinite ↔ m.AllFinite := by
  constructor
  · intro h i j hij hj
    have hcell := h i (show i < m.order by omega) j hj
    rwa [entry, SymMatrix.entry, if_pos hij] at hcell
  · intro h r hr c hc
    have hr : r < m.order := hr
    have hc : c < m.order := hc
    rw [entry, SymMatrix.entry]
    split
    next hrc => exact h r c hrc hc
    next hrc => exact h c r (by omega) hr

theorem allFinite_ofColumn {x : Column F} : (rect (.ofColumn x)).AllFinite ↔ x.AllFinite := by
  rw [Column.AllFinite, Column.forall_mem_iff _ fun e => Scalar.isFinite e = true]
  constructor
  · intro h i hi
    have hcell := h i hi 0 Nat.one_pos
    rwa [entry, RectMatrix.entry_ofColumn] at hcell
  · intro h r hr c hc
    obtain rfl : c = 0 := Nat.lt_one_iff.mp hc
    rw [entry, RectMatrix.entry_ofColumn]
    exact h r hr

theorem allFinite_unit [RoundedScalar F] (n : ℕ) : (unit n : BlockBody F).AllFinite := by
  intro r _ c _
  rw [entry]
  split
  · exact isFinite_one
  · exact isFinite_zero

end BlockBody

/-! ## Growth trees -/

namespace GrowthTree

variable [RoundedScalar F] {t : GrowthTree F}

theorem isFinite_sqrt_two : Scalar.isFinite (Scalar.sqrt (Scalar.two : F)) = true := by
  have htwo := exactly_two (F := F)
  have hbound : IsBound F 2 := Between.isBound htwo
  exact ((htwo.mono (by norm_num) (by norm_num)).sqrt hbound (by norm_num)).isFinite

/-- The factors are constants and the coupling. -/
theorem isFinite_coefficient (hcoupling : Scalar.isFinite t.coupling = true) (r c : ℕ) :
    Scalar.isFinite (t.coefficient r c) = true := by
  have hone : Scalar.isFinite (-1 : F) = true := (isFinite_neg _).trans isFinite_one
  have hroot : Scalar.isFinite (-Scalar.sqrt (Scalar.two : F)) = true :=
    (isFinite_neg _).trans isFinite_sqrt_two
  have hcoupling' : Scalar.isFinite (-t.coupling) = true := (isFinite_neg _).trans hcoupling
  have hzero : Scalar.isFinite (0 : F) = true := isFinite_zero
  unfold coefficient
  cases t.row r with
  | tip k => rw [apply_ite Scalar.isFinite, hroot, hzero, ite_self]
  | value j =>
    cases hnode : t.node j with
    | inner k => simp only [hnode, apply_ite Scalar.isFinite, hone, hzero, ite_self]
    | asset i =>
      simp only [hnode, apply_ite Scalar.isFinite, hcoupling', isFinite_one, hzero, ite_self]
    | padding => simp only [hnode, hzero]

theorem allFinite_matrix (hcoupling : Scalar.isFinite t.coupling = true) :
    (BlockBody.rect t.matrix).AllFinite := by
  intro r hr c hc
  have hcell : t.matrix.entry r c = t.coefficient r c := RectMatrix.entry_ofFn _ hr hc
  rw [BlockBody.entry, hcell]
  exact isFinite_coefficient hcoupling r c

theorem isFinite_nodeConstant (hgrowth : t.growth.AllFinite)
    (hfloor : Scalar.isFinite t.floor = true) (j : ℕ) :
    Scalar.isFinite (t.nodeConstant j) = true := by
  unfold nodeConstant
  cases hnode : t.node j with
  | inner k => exact isFinite_zero
  | asset i =>
    rcases lt_or_ge i t.growth.size with hi | hi
    · exact (Column.forall_mem_iff _ fun e => Scalar.isFinite e = true).mp hgrowth i hi
    · simp only [Column.coord_of_size_le hi]
      exact isFinite_zero
  | padding => exact hfloor

/-- The constants are growth proxies and the floor. The last one is computed from the floor,
so it shows when the floor is not finite. -/
theorem allFinite_constants (hgrowth : t.growth.AllFinite) :
    t.constants.AllFinite ↔ Scalar.isFinite (t.constant (3 * t.inner)) = true := by
  rw [Column.AllFinite, Column.forall_mem_iff _ fun e => Scalar.isFinite e = true, size_constants]
  constructor
  · intro h
    have hrow : 3 * t.inner < t.rows := Nat.lt_succ_self _
    have hlast := h (3 * t.inner) hrow
    rwa [constants, Column.coord_tabulate, if_pos hrow] at hlast
  · intro h r hr
    have hlast : t.constant (3 * t.inner) = t.nodeConstant 0 - t.floor := by
      rw [constant, if_neg (lt_irrefl _)]
    have hfloor : Scalar.isFinite t.floor = true := (isFinite_of_sub (hlast ▸ h)).2
    rw [constants, Column.coord_tabulate, if_pos hr]
    by_cases hrow : r < 3 * t.inner
    · rw [constant, if_pos hrow]
      cases hread : coneRow r with
      | value j => exact isFinite_nodeConstant hgrowth hfloor j
      | tip k => exact isFinite_zero
    · have hr : r < 3 * t.inner + 1 := hr
      obtain rfl : r = 3 * t.inner := by omega
      exact h

end GrowthTree

/-! ## Operators of the program -/

namespace TradeProgram

variable [RoundedScalar F] {p : TradeProgram F}

theorem allFinite_cost (hreturns : p.returns.AllFinite) : p.cost.AllFinite := by
  refine tiled_cost.allFinite_iff.mpr fun b hb => ?_
  simp only [cost, List.mem_cons, List.not_mem_nil, or_false] at hb
  rcases hb with rfl | rfl | rfl
  · exact BlockBody.allFinite_ofColumn.mpr hreturns
  · exact BlockBody.allFinite_ofColumn.mpr hreturns
  · exact BlockBody.allFinite_unit 1

theorem allFinite_system (hp : p.Sized) (hcoupling : Scalar.isFinite p.tree.coupling = true) :
    p.system.AllFinite ↔ p.riskRoot.AllFinite := by
  rw [(tiled_system hp).allFinite_iff]
  constructor
  · intro h
    exact BlockBody.allFinite_sym.mp (h ⟨2, 0, false, .sym p.riskRoot⟩ (by simp [system]))
  · intro h b hb
    simp only [system, List.mem_cons, List.not_mem_nil, or_false] at hb
    rcases hb with rfl | rfl | rfl | rfl | rfl | rfl
    · exact p.tree.allFinite_matrix hcoupling
    · exact BlockBody.allFinite_sym.mpr h
    · exact BlockBody.allFinite_sym.mpr h
    · exact BlockBody.allFinite_unit _
    · exact BlockBody.allFinite_unit _
    · exact BlockBody.allFinite_unit _

theorem allFinite_rightHand (hp : p.Sized) (hgrowth : p.tree.growth.AllFinite) :
    p.rightHand.AllFinite ↔ p.riskNow.AllFinite ∧
      Scalar.isFinite (p.tree.constant (3 * p.tree.inner)) = true := by
  rw [(tiled_rightHand hp).allFinite_iff, ← GrowthTree.allFinite_constants hgrowth]
  constructor
  · intro h
    exact ⟨BlockBody.allFinite_ofColumn.mp
        (h ⟨2, 0, false, .rect (.ofColumn p.riskNow)⟩ (by simp [rightHand])),
      BlockBody.allFinite_ofColumn.mp
        (h ⟨2 + p.assets, 0, false, .rect (.ofColumn p.tree.constants)⟩ (by simp [rightHand]))⟩
  · rintro ⟨hnow, hconstants⟩ b hb
    simp only [rightHand, List.mem_cons, List.not_mem_nil, or_false] at hb
    rcases hb with rfl | rfl | rfl
    · exact BlockBody.allFinite_ofColumn.mpr hnow
    · exact BlockBody.allFinite_ofColumn.mpr hconstants
    · exact BlockBody.allFinite_unit 1

end TradeProgram

/-! ## Validated inputs -/

namespace Inputs

/-- Every number of the inputs is finite. -/
structure FiniteData (inp : Inputs F) : Prop where
  returns : inp.returns.AllFinite
  covariance : inp.covariance.cells.AllFinite
  riskAversion : Scalar.isFinite inp.riskAversion = true
  coupling : Scalar.isFinite inp.coupling = true
  allocation : inp.allocation.AllFinite
  growth : inp.growth.AllFinite

variable {inp : Inputs F} {par : Settings F} {n : ℕ}

theorem finiteData_of_validate (h : inp.validate par = .ok n) : inp.FiniteData := by
  have hfault := (validate_eq_ok_iff.mp h).2
  simp only [fault?, Option.orElse_eq_none, finiteFault?_eq_none_iff] at hfault
  -- Four checks of sizes come first, and then those of finite numbers.
  obtain ⟨-, -, -, -, hreturns, hcovariance, hriskAversion, hcoupling, hallocation, hgrowth, -⟩ :=
    hfault
  exact ⟨hreturns, hcovariance, hriskAversion _ (by simp), hcoupling _ (by simp), hallocation,
    hgrowth⟩

theorem Sized.sized_program (h : inp.Sized) (epsZero : F) :
    (inp.program SymMatrix.sqrt epsZero).Sized :=
  TradeProgram.sized_of_eq_buildBy rfl
    ((SymMatrix.order_sqrt _ _).trans (Covariance.order_symmetrize h.size_covariance))
    h.size_growth

/-- The program of validated inputs is finite but for the parts that are computed. -/
theorem allFinite_program [RoundedScalar F] (h : inp.validate par = .ok n) (epsZero : F)
    {p : TradeProgram F} (hp : p = inp.program SymMatrix.sqrt epsZero) :
    p.cost.AllFinite ∧ (p.system.AllFinite ↔ p.riskRoot.AllFinite) ∧
      (p.rightHand.AllFinite ↔
        p.riskNow.AllFinite ∧ Scalar.isFinite (p.tree.constant (3 * p.tree.inner)) = true) := by
  subst hp
  have hdata := finiteData_of_validate h
  have hsized := (sized_of_validate h).1.sized_program epsZero
  exact ⟨TradeProgram.allFinite_cost hdata.returns,
    TradeProgram.allFinite_system hsized hdata.coupling,
    TradeProgram.allFinite_rightHand hsized hdata.growth⟩

end Inputs

end Rebalancing
