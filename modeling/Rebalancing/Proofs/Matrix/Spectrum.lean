-- SUMMARY: What the search for a spectrum does for any scalars: it keeps the order of the matrix, and ends where no cell is due.
import Mathlib
import Rebalancing.Matrix.Spectrum

/-!
# Spectra by sweeps

A spectrum is found by turning a matrix in place, so it is of the order of the
matrix however many sweeps it takes, and so is the root taken through it. Where no
cell above the diagonal is due, the first sweep ends the search.
-/

namespace Rebalancing

variable {F : Type} [Scalar F]

namespace Spectrum

theorem mem_cellsAbove {n i j : ℕ} (h : (i, j) ∈ cellsAbove n) : i < j ∧ j < n := by
  simp only [cellsAbove, List.mem_flatMap, List.mem_range, List.mem_map, List.mem_range'_1,
    Prod.mk.injEq] at h
  obtain ⟨i, hi, j, hj, rfl, rfl⟩ := h
  omega

/-! ## Searches that end at once -/

/-- A sweep over cells none of which is due makes no rotation. -/
theorem sweep_of_not_isDue {s : Spectrum F} {tol : F}
    (h : ∀ i j, i < j → j < s.turned.order → s.isDue tol i j = false) :
    s.sweep tol = (s, false) := by
  have hcells : ∀ cell ∈ cellsAbove s.turned.order, s.isDue tol cell.1 cell.2 = false := by
    intro cell hcell
    obtain ⟨hij, hj⟩ := mem_cellsAbove hcell
    exact h cell.1 cell.2 hij hj
  rw [sweep]
  -- By induction on the cells still to be visited: the spectrum stays as it is.
  generalize cellsAbove s.turned.order = cells at hcells
  induction cells with
  | nil => rfl
  | cons cell cells ih =>
    have hfirst := hcells cell (List.mem_cons_self ..)
    rw [List.foldl_cons]
    simp only [hfirst]
    exact ih fun c hc => hcells c (List.mem_cons_of_mem _ hc)

theorem ofMatrix_of_not_isDue {m : SymMatrix F} {eps : F}
    (h : ∀ i j, i < j → j < m.order → (start m).isDue (eps * eps) i j = false) :
    ofMatrix m eps = start m := by
  rw [ofMatrix, sweepBound, sweeps, sweep_of_not_isDue h]
  rfl

/-! ## Orders -/

theorem order_rotate (s : Spectrum F) (i j : Nat) :
    (s.rotate i j).turned.order = s.turned.order :=
  SymMatrix.order_ofFn _ _

omit [Scalar F] in
/-- Visits that keep the order lead to a spectrum of the same order. -/
theorem order_foldl {visit : Spectrum F × Bool → Nat × Nat → Spectrum F × Bool}
    (h : ∀ state cell, (visit state cell).1.turned.order = state.1.turned.order)
    (cells : List (Nat × Nat)) (state : Spectrum F × Bool) :
    (cells.foldl visit state).1.turned.order = state.1.turned.order := by
  induction cells generalizing state with
  | nil => rfl
  | cons cell cells ih => rw [List.foldl_cons, ih, h]

theorem order_sweep (tol : F) (s : Spectrum F) :
    (s.sweep tol).1.turned.order = s.turned.order := by
  rw [sweep]
  apply order_foldl
  rintro ⟨s, moved⟩ ⟨i, j⟩
  cases hdue : s.isDue tol i j with
  | true =>
    simp only [hdue, if_true]
    exact order_rotate s i j
  | false => simp only [hdue, Bool.false_eq_true, if_false]

theorem order_sweeps (tol : F) (fuel : Nat) (s : Spectrum F) :
    (sweeps tol fuel s).turned.order = s.turned.order := by
  induction fuel generalizing s with
  | zero => rfl
  | succ fuel ih =>
    have hsweep := order_sweep tol s
    rw [sweeps]
    cases hresult : s.sweep tol with
    | mk swept moved =>
      rw [hresult] at hsweep
      cases moved with
      | true => exact (ih swept).trans hsweep
      | false => exact hsweep

theorem order_ofMatrix (m : SymMatrix F) (eps : F) : (ofMatrix m eps).turned.order = m.order :=
  order_sweeps _ _ _

end Spectrum

theorem SymMatrix.order_sqrt (m : SymMatrix F) (eps : F) : (m.sqrt eps).order = m.order :=
  (order_ofFn _ _).trans (Spectrum.order_ofMatrix m eps)

end Rebalancing
