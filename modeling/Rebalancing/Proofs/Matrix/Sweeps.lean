-- SUMMARY: Sweeps over a symmetric matrix of reals come to an end, and lead to the matrix in an orthonormal basis with no cell above the diagonal left to clear.
import Mathlib
import Rebalancing.Proofs.Matrix.Rotation
import Rebalancing.Proofs.Matrix.Spectrum

/-!
# Sweeps

A sweep is a number of rotations of due cells. What one rotation keeps, a run of them
keeps: the turned matrix is the matrix at the start in an orthonormal basis. What a
rotation takes from the sum of the squares above the diagonal is more than the
tolerance, so the search makes a sweep without a rotation before its bound is
reached. The bound on the number of sweeps is never what ends it.
-/

open Finset Matrix

namespace Rebalancing

namespace Spectrum

/-! ## Runs of rotations -/

section Runs

variable {F : Type} [Scalar F] {tol : F} {s s' s'' : Spectrum F}

/-- A number of rotations of due cells, one after the other. -/
inductive Rotations (tol : F) : ℕ → Spectrum F → Spectrum F → Prop where
  | none (s : Spectrum F) : Rotations tol 0 s s
  | first {k : ℕ} {s s' : Spectrum F} {i j : ℕ} (hij : i < j) (hj : j < s.turned.order)
      (hdue : s.isDue tol i j = true) (hrest : Rotations tol k (s.rotate i j) s') :
      Rotations tol (k + 1) s s'

theorem Rotations.trans {k l : ℕ} (h : Rotations tol k s s') (h' : Rotations tol l s' s'') :
    ∃ m, Rotations tol m s s'' := by
  induction h with
  | none s => exact ⟨l, h'⟩
  | first hij hj hdue _ ih =>
    obtain ⟨m, hm⟩ := ih h'
    exact ⟨m + 1, .first hij hj hdue hm⟩

/-- No cell above the diagonal is due. -/
def Settled (s : Spectrum F) (tol : F) : Prop :=
  ∀ i j, i < j → j < s.turned.order → s.isDue tol i j = false

theorem mem_cellsAbove_of_lt {n i j : ℕ} (hij : i < j) (hj : j < n) : (i, j) ∈ cellsAbove n := by
  simp only [cellsAbove, List.mem_flatMap, List.mem_range, List.mem_map, List.mem_range'_1,
    Prod.mk.injEq]
  exact ⟨i, hij.trans hj, j, by omega, rfl, rfl⟩

/-- Visits of cells make a number of rotations, and tell whether it is above zero. If it
is not, none of the cells is due. -/
theorem foldl_visits (tol : F) (cells : List (ℕ × ℕ)) (s : Spectrum F) (moved : Bool)
    (hcells : ∀ cell ∈ cells, cell.1 < cell.2 ∧ cell.2 < s.turned.order) :
    ∃ k s', cells.foldl (fun (s, moved) (i, j) =>
        if s.isDue tol i j then (s.rotate i j, true) else (s, moved)) (s, moved) =
          (s', moved || decide (0 < k)) ∧
      Rotations tol k s s' ∧
      (k = 0 → ∀ cell ∈ cells, s.isDue tol cell.1 cell.2 = false) := by
  induction cells generalizing s moved with
  | nil => exact ⟨0, s, by simp, .none s, by simp⟩
  | cons cell cells ih =>
    obtain ⟨i, j⟩ := cell
    obtain ⟨hij, hj⟩ := hcells (i, j) (List.mem_cons_self ..)
    rw [List.foldl_cons]
    cases hdue : s.isDue tol i j with
    | true =>
      obtain ⟨k, s', hfold, hrest, -⟩ := ih (s.rotate i j) true fun cell hcell => by
        rw [order_rotate]
        exact hcells cell (List.mem_cons_of_mem _ hcell)
      refine ⟨k + 1, s', ?_, .first hij hj hdue hrest, fun h => absurd h (Nat.succ_ne_zero k)⟩
      simpa [hdue] using hfold
    | false =>
      obtain ⟨k, s', hfold, hrest, hnone⟩ := ih s moved fun cell hcell =>
        hcells cell (List.mem_cons_of_mem _ hcell)
      refine ⟨k, s', by simpa [hdue] using hfold, hrest, fun hk cell hcell => ?_⟩
      rcases List.mem_cons.mp hcell with rfl | hcell
      · exact hdue
      · exact hnone hk cell hcell

/-- A sweep finds no cell to clear, or makes one rotation or more. -/
theorem sweep_cases (tol : F) (s : Spectrum F) :
    (s.sweep tol = (s, false) ∧ s.Settled tol) ∨
      ∃ k s', s.sweep tol = (s', true) ∧ Rotations tol (k + 1) s s' := by
  obtain ⟨k, s', hfold, hrotations, hnone⟩ :=
    foldl_visits tol (cellsAbove s.turned.order) s false fun _ h => mem_cellsAbove h
  cases k with
  | zero =>
    cases hrotations
    exact .inl ⟨hfold.trans (by simp),
      fun i j hij hj => hnone rfl (i, j) (mem_cellsAbove_of_lt hij hj)⟩
  | succ k => exact .inr ⟨k, s', hfold.trans (by simp), hrotations⟩

/-- Sweeps are repeated until one makes no rotation, however many that takes. -/
inductive SettlesTo (tol : F) : Spectrum F → Spectrum F → Prop where
  | still {s s' : Spectrum F} (h : s.sweep tol = (s', false)) : SettlesTo tol s s'
  | again {s s' s'' : Spectrum F} (h : s.sweep tol = (s', true)) (hrest : SettlesTo tol s' s'') :
      SettlesTo tol s s''

/-- Repeated sweeps end with no cell due, after some number of rotations. -/
theorem SettlesTo.settled (h : SettlesTo tol s s') :
    s'.Settled tol ∧ ∃ k, Rotations tol k s s' := by
  induction h with
  | @still s s' hsweep =>
    obtain ⟨hstill, hsettled⟩ | ⟨k, s'', hmoved, -⟩ := sweep_cases tol s
    · cases hstill.symm.trans hsweep
      exact ⟨hsettled, 0, .none s⟩
    · cases hmoved.symm.trans hsweep
  | @again s s' s'' hsweep _ ih =>
    obtain ⟨hsettled, k, hrest⟩ := ih
    obtain ⟨hstill, -⟩ | ⟨l, t, hmoved, hrotations⟩ := sweep_cases tol s
    · cases hstill.symm.trans hsweep
    · cases hmoved.symm.trans hsweep
      exact ⟨hsettled, hrotations.trans hrest⟩

end Runs

/-! ## What rotations keep -/

/-- The basis is orthonormal, and the turned matrix is `m` in that basis. -/
structure Represents (s : Spectrum ℝ) (m : SymMatrix ℝ) : Prop where
  order_eq : s.turned.order = m.order
  rows_eq : s.basis.rows = m.order
  cols_eq : s.basis.cols = m.order
  orthonormal :
    (s.basis.toMatrix m.order m.order)ᵀ * s.basis.toMatrix m.order m.order = 1
  turned_eq : s.turned.toMatrix m.order =
    (s.basis.toMatrix m.order m.order)ᵀ *
      (m.toMatrix m.order * s.basis.toMatrix m.order m.order)

theorem represents_start (m : SymMatrix ℝ) : (start m).Represents m := by
  have hbasis : (start m).basis.toMatrix m.order m.order = 1 := by
    ext i j
    refine (RectMatrix.entry_ofFn _ i.isLt j.isLt).trans ?_
    simp only [one_apply, Fin.val_inj]
  refine ⟨rfl, rfl, rfl, ?_, ?_⟩
  · rw [hbasis, transpose_one, Matrix.mul_one]
  · rw [hbasis, transpose_one, Matrix.one_mul, Matrix.mul_one]
    rfl

section Steps

variable {tol : ℝ} {s s' : Spectrum ℝ} {m : SymMatrix ℝ}

theorem isDue_eq_true_iff {i j : ℕ} : s.isDue tol i j = true ↔
    tol * s.turned.entry i i * s.turned.entry j j < s.turned.entry i j * s.turned.entry i j ∧
      tol < s.turned.entry i j * s.turned.entry i j := by
  simp [isDue]

/-- A due cell is not zero. -/
theorem entry_ne_zero_of_isDue (htol : 0 ≤ tol) {i j : ℕ} (h : s.isDue tol i j = true) :
    s.turned.entry i j ≠ 0 := by
  intro hzero
  have hlt := (isDue_eq_true_iff.mp h).2
  rw [hzero, mul_zero] at hlt
  exact absurd hlt (not_lt.mpr htol)

theorem Represents.rotate (h : s.Represents m) {i j : ℕ} (hij : i < j) (hj : j < s.turned.order)
    (hd : s.turned.entry i j ≠ 0) : (s.rotate i j).Represents m := by
  have hj' : j < m.order := h.order_eq ▸ hj
  let i' : Fin m.order := ⟨i, hij.trans hj'⟩
  let j' : Fin m.order := ⟨j, hj'⟩
  have hlt : i' < j' := hij
  have hbasis := toMatrix_basis_rotate (i := i') (j := j') h.rows_eq h.cols_eq
  refine ⟨(order_rotate s i j).trans h.order_eq, h.rows_eq, h.cols_eq, ?_, ?_⟩
  · calc ((s.rotate i j).basis.toMatrix m.order m.order)ᵀ *
          (s.rotate i j).basis.toMatrix m.order m.order
        = (s.turning i' j')ᵀ * ((s.basis.toMatrix m.order m.order)ᵀ *
            s.basis.toMatrix m.order m.order) * s.turning i' j' := by
          rw [hbasis, transpose_mul]
          simp only [Matrix.mul_assoc]
      _ = 1 := by
          rw [h.orthonormal, Matrix.mul_one]
          exact transpose_turning_mul_self hlt
  · refine (toMatrix_turned_rotate (i := i') (j := j') h.order_eq hlt hd).trans ?_
    rw [hbasis, h.turned_eq, transpose_mul]
    simp only [Matrix.mul_assoc]

theorem Rotations.represents {k : ℕ} (hrun : Rotations tol k s s') (htol : 0 ≤ tol)
    (h : s.Represents m) : s'.Represents m := by
  induction hrun with
  | none s => exact h
  | first hij hj hdue _ ih => exact ih (h.rotate hij hj (entry_ne_zero_of_isDue htol hdue))

/-- Every rotation takes more than the tolerance from the sum above the diagonal. -/
theorem Rotations.above_le {k : ℕ} (hrun : Rotations tol k s s') (htol : 0 ≤ tol) :
    s'.turned.above + k * tol ≤ s.turned.above := by
  induction hrun with
  | none s => simp
  | @first k s s' i j hij hj hdue _ ih =>
    have hclear := above_rotate (i := ⟨i, hij.trans hj⟩) (j := ⟨j, hj⟩) rfl hij
      (entry_ne_zero_of_isDue htol hdue)
    have hlt := (isDue_eq_true_iff.mp hdue).2
    simp only at hclear
    rw [← sq] at hlt
    push_cast
    linarith

/-! ## The end of the search -/

/-- As many sweeps as the sum above the diagonal can pay for are as good as sweeps
without a bound. -/
theorem settlesTo_sweeps (htol : 0 ≤ tol) {fuel : ℕ} (h : s.turned.above < fuel * tol) :
    SettlesTo tol s (sweeps tol fuel s) := by
  induction fuel generalizing s with
  | zero =>
    rw [Nat.cast_zero, zero_mul] at h
    exact absurd h (not_lt.mpr s.turned.above_nonneg)
  | succ fuel ih =>
    rw [sweeps]
    obtain ⟨hsweep, -⟩ | ⟨k, s', hsweep, hrotations⟩ := sweep_cases tol s
    · simp only [hsweep]
      exact .still hsweep
    · have hfall := hrotations.above_le htol
      have hone : 0 ≤ (k : ℝ) * tol := mul_nonneg k.cast_nonneg htol
      push_cast at h hfall
      simp only [hsweep]
      exact .again hsweep (ih (by linarith))

end Steps

/-- The search for a spectrum ends by itself. -/
theorem settlesTo_ofMatrix (m : SymMatrix ℝ) {eps : ℝ} (heps : eps ≠ 0) :
    SettlesTo (eps * eps) (start m) (ofMatrix m eps) := by
  have htol : 0 < eps * eps := mul_self_pos.mpr heps
  refine settlesTo_sweeps htol.le ?_
  have hceil : m.above / (eps * eps) ≤ ⌈m.above / (eps * eps)⌉₊ := Nat.le_ceil _
  have hbound : sweepBound (eps * eps) m = ⌈m.above / (eps * eps)⌉₊ + 64 := rfl
  rw [hbound, ← div_lt_iff₀ htol]
  push_cast
  exact hceil.trans_lt (by norm_num)

theorem settled_ofMatrix (m : SymMatrix ℝ) {eps : ℝ} (heps : eps ≠ 0) :
    (ofMatrix m eps).Settled (eps * eps) :=
  (settlesTo_ofMatrix m heps).settled.1

theorem represents_ofMatrix (m : SymMatrix ℝ) {eps : ℝ} (heps : eps ≠ 0) :
    (ofMatrix m eps).Represents m := by
  obtain ⟨-, k, hrun⟩ := (settlesTo_ofMatrix m heps).settled
  exact hrun.represents (mul_self_nonneg eps) (represents_start m)

end Spectrum

end Rebalancing
