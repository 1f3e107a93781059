-- SUMMARY: The range of a spectrum bounds the quadratic form of its matrix, up to the cells that the search leaves.
import Mathlib
import Rebalancing.Proofs.Matrix.Sweeps

/-!
# Ranges of spectra

The least number on the diagonal of the turned matrix is a value of the quadratic form
on a unit column of the basis. The other way round, a form is at least the least
number on its diagonal less what the other cells of a row can add up to. The cells
that a search leaves are small against the greatest number on the diagonal, so the
two meet as the tolerance goes to zero.
-/

open Finset Matrix

namespace Rebalancing

/-! ## Least and greatest entries -/

namespace Column

theorem exists_least?_eq {x : Column ℝ} (h : 0 < x.size) :
    ∃ m, x.least? = some m ∧ m ∈ x ∧ ∀ e ∈ x, m ≤ e := by
  -- The least number so far and what it is the least of, over the entries still to come.
  have hfold : ∀ (es : List ℝ) (a : ℝ), ∃ m,
      es.foldl (fun least e => if Scalar.isNaN e then least
        else some ((least.map fun m => Scalar.min m e).getD e)) (some a) = some m ∧
      m ∈ a :: es ∧ ∀ e ∈ a :: es, m ≤ e := by
    intro es
    induction es with
    | nil => exact fun a => ⟨a, rfl, by simp, by simp⟩
    | cons e es ih =>
      intro a
      obtain ⟨m, hm, hmem, hle⟩ := ih (min a e)
      refine ⟨m, ?_, ?_, ?_⟩
      · simpa using hm
      · rcases List.mem_cons.mp hmem with rfl | hmem
        · rcases min_choice a e with h | h <;> simp [h]
        · simp [hmem]
      · have hfirst := hle _ (List.mem_cons_self ..)
        intro v hv
        rcases List.mem_cons.mp hv with rfl | hv
        · exact hfirst.trans (min_le_left _ _)
        · rcases List.mem_cons.mp hv with rfl | hv
          · exact hfirst.trans (min_le_right _ _)
          · exact hle v (List.mem_cons_of_mem _ hv)
  obtain ⟨es⟩ := x
  cases es with
  | nil => exact absurd h (lt_irrefl 0)
  | cons a es =>
    obtain ⟨m, hm, hmem, hle⟩ := hfold es a
    refine ⟨m, ?_, by simpa using hmem, by simpa using hle⟩
    simpa [least?] using hm

theorem abs_le_maxAbs {x : Column ℝ} : ∀ e ∈ x, |e| ≤ x.maxAbs := by
  have hfold : ∀ (es : List ℝ) (a : ℝ),
      a ≤ es.foldl (fun greatest e => Scalar.max greatest (Scalar.abs e)) a ∧
      ∀ e ∈ es, |e| ≤ es.foldl (fun greatest e => Scalar.max greatest (Scalar.abs e)) a := by
    intro es
    induction es with
    | nil => simp
    | cons e es ih =>
      intro a
      obtain ⟨hacc, hes⟩ := ih (Scalar.max a (Scalar.abs e))
      have hstep : a ≤ Scalar.max a (Scalar.abs e) ∧ |e| ≤ Scalar.max a (Scalar.abs e) := by
        simp
      rw [List.foldl_cons]
      refine ⟨hstep.1.trans hacc, fun v hv => ?_⟩
      rcases List.mem_cons.mp hv with rfl | hv
      · exact hstep.2.trans hacc
      · exact hes v hv
  intro e he
  rw [maxAbs, ← Array.foldl_toList]
  exact (hfold x.toList 0).2 e (Array.mem_toList_iff.mpr he)

end Column

namespace Spectrum

/-- The range of the eigenvalues of a spectrum. -/
def valueRange {F : Type} [Scalar F] (s : Spectrum F) : SpectralRange F where
  least := s.values.least?.getD Scalar.infinity
  maxAbs := s.values.maxAbs

theorem valueRange_ofMatrix {F : Type} [Scalar F] (m : SymMatrix F) (eps : F) :
    (ofMatrix m eps).valueRange = m.spectralRange eps := rfl

section Values

variable {s : Spectrum ℝ}

theorem mem_values {e : ℝ} : e ∈ s.values ↔ ∃ k < s.turned.order, s.turned.entry k k = e := by
  rw [values, Column.tabulate_eq_ofFn, Array.mem_ofFn]
  exact ⟨fun ⟨k, hk⟩ => ⟨k, k.isLt, hk⟩, fun ⟨k, hk, he⟩ => ⟨⟨k, hk⟩, he⟩⟩

/-- The least eigenvalue stands on the diagonal, and none there is less. -/
theorem exists_least_eq (h : 0 < s.turned.order) :
    (∃ k < s.turned.order, s.turned.entry k k = s.valueRange.least) ∧
      ∀ k < s.turned.order, s.valueRange.least ≤ s.turned.entry k k := by
  have hsize : 0 < s.values.size := (Column.size_tabulate _ _).symm ▸ h
  obtain ⟨m, hm, hmem, hle⟩ := Column.exists_least?_eq hsize
  have hleast : s.valueRange.least = m := by
    rw [valueRange, hm, Option.getD_some]
  rw [hleast]
  exact ⟨mem_values.mp hmem, fun k hk => hle _ (mem_values.mpr ⟨k, hk, rfl⟩)⟩

theorem abs_entry_le_maxAbs {k : ℕ} (hk : k < s.turned.order) :
    |s.turned.entry k k| ≤ s.valueRange.maxAbs :=
  Column.abs_le_maxAbs _ (mem_values.mpr ⟨k, hk, rfl⟩)

end Values

/-! ## Cells that are left -/

/-- A cell that is not due is small: by itself, or against the two numbers on the
diagonal. -/
theorem Settled.abs_entry_le {s : Spectrum ℝ} {eps : ℝ} (h : s.Settled (eps * eps))
    (heps : 0 ≤ eps) {i j : ℕ} (hij : i < j) (hj : j < s.turned.order) :
    |s.turned.entry i j| ≤ eps * max 1 s.valueRange.maxAbs := by
  have hnot := h i j hij hj
  rw [← Bool.not_eq_true, isDue_eq_true_iff, not_and_or, not_lt, not_lt] at hnot
  have hi := abs_entry_le_maxAbs (hij.trans hj)
  have hj := abs_entry_le_maxAbs hj
  generalize s.turned.entry i i = a at hnot hi
  generalize s.turned.entry j j = b at hnot hj
  generalize s.turned.entry i j = d at hnot ⊢
  generalize s.valueRange.maxAbs = M at hi hj ⊢
  have hscale : 0 ≤ eps * max 1 M := mul_nonneg heps (le_max_of_le_left zero_le_one)
  refine abs_le_of_sq_le_sq' ?_ hscale |> abs_le.mpr
  have hM : 0 ≤ M := (abs_nonneg a).trans hi
  rw [mul_pow, sq, sq]
  rcases hnot with hrelative | habsolute
  · have hab : a * b ≤ M * M := by
      calc a * b ≤ |a| * |b| := (le_abs_self _).trans_eq (abs_mul a b)
        _ ≤ M * M := mul_le_mul hi hj (abs_nonneg b) hM
    calc d * d ≤ eps * eps * (a * b) := by rw [← mul_assoc]; exact hrelative
      _ ≤ eps * eps * (M * M) := mul_le_mul_of_nonneg_left hab (mul_self_nonneg eps)
      _ ≤ eps * eps * max 1 M ^ 2 := by
        rw [← sq M]
        exact mul_le_mul_of_nonneg_left (pow_le_pow_left₀ hM (le_max_right 1 M) 2)
          (mul_self_nonneg eps)
  · calc d * d ≤ eps * eps * 1 := habsolute.trans_eq (mul_one _).symm
      _ ≤ eps * eps * max 1 M ^ 2 :=
        mul_le_mul_of_nonneg_left (one_le_pow₀ (le_max_left 1 M)) (mul_self_nonneg eps)

end Spectrum

/-! ## Quadratic forms -/

theorem dotProduct_self_pos {n : ℕ} {v : Fin n → ℝ} (hv : v ≠ 0) : 0 < v ⬝ᵥ v := by
  have hpos := dotProduct_self_star_pos_iff.mpr hv
  rwa [star_trivial] at hpos

/-- A column and its coordinates in an orthonormal basis have one length. -/
theorem dotProduct_mulVec_self {n : ℕ} {U : Matrix (Fin n) (Fin n) ℝ} (hU : Uᵀ * U = 1)
    (y : Fin n → ℝ) : (U *ᵥ y) ⬝ᵥ (U *ᵥ y) = y ⬝ᵥ y := by
  rw [dotProduct_mulVec, ← mulVec_transpose, mulVec_mulVec, hU, one_mulVec]

/-- A quadratic form is at least the least number on the diagonal less what the other
cells of a row can add up to. -/
theorem le_dotProduct_mulVec {n : ℕ} {A : Matrix (Fin n) (Fin n) ℝ} {least r : ℝ}
    (hdiag : ∀ k, least ≤ A k k) (hoff : ∀ p q, p ≠ q → |A p q| ≤ r) (y : Fin n → ℝ) :
    (least - (n - 1) * r) * (y ⬝ᵥ y) ≤ y ⬝ᵥ (A *ᵥ y) := by
  have hcell : ∀ p q, (if p = q then (least + r) * y p ^ 2 else 0) -
      r * ((y p ^ 2 + y q ^ 2) / 2) ≤ y p * (A p q * y q) := by
    intro p q
    rcases eq_or_ne p q with rfl | hpq
    · have hp := mul_le_mul_of_nonneg_right (hdiag p) (sq_nonneg (y p))
      rw [if_pos rfl]
      linarith
    · obtain ⟨hlow, hhigh⟩ := abs_le.mp (hoff p q hpq)
      rw [if_neg hpq]
      nlinarith [mul_nonneg (sub_nonneg.mpr hhigh) (sq_nonneg (y p - y q)),
        mul_nonneg (neg_le_iff_add_nonneg'.mp hlow) (sq_nonneg (y p + y q))]
  have hsquare : y ⬝ᵥ y = ∑ p, y p ^ 2 := by
    simp only [dotProduct, sq]
  calc (least - (n - 1) * r) * (y ⬝ᵥ y)
      = ∑ p, ∑ q, ((if p = q then (least + r) * y p ^ 2 else 0) -
          r * ((y p ^ 2 + y q ^ 2) / 2)) := by
        simp only [sum_sub_distrib, sum_ite_eq, mem_univ, if_true, ← mul_sum, ← sum_div,
          sum_add_distrib, sum_const, card_univ, Fintype.card_fin, nsmul_eq_mul, hsquare]
        ring
    _ ≤ ∑ p, ∑ q, y p * (A p q * y q) :=
        sum_le_sum fun p _ => sum_le_sum fun q _ => hcell p q
    _ = y ⬝ᵥ (A *ᵥ y) := by
        simp only [dotProduct, mulVec, mul_sum]

end Rebalancing
