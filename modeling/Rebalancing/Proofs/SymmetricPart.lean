-- SUMMARY: A covariance, symmetric or not, and its symmetric part give every allocation the same variance and objective, and the same inputs the same program.
import Mathlib
import Rebalancing.Objective
import Rebalancing.Proofs.Matrix.Rotation
import Rebalancing.TradeProgram

/-!
# Symmetric parts

The program is built from the symmetric part of a covariance, and a decision is valued by
the covariance as it was given. The two are stored in different ways, and the second need
not be symmetric. Still they are one quadratic form: a product of two entries of an
allocation meets both cells of its pair, so only the sum of the two cells counts.
-/

open Finset

namespace Rebalancing

namespace Covariance

variable {s : Covariance ℝ} {n : ℕ}

/-! ## Cells -/

/-- A cell of the symmetric part is the mean of two opposite cells. -/
theorem entry_symmetrize (hs : s.size = (n, n)) {r c : ℕ} (hr : r < n) (hc : c < n) :
    s.symmetrize.entry r c = (s.entry r c + s.entry c r) / 2 := by
  have hcell : s.symmetrize.entry r c = 1 / 2 * (s.entry r c + s.entry c r) :=
    congrFun (congrFun (toMatrix_symmetrize hs) ⟨r, hr⟩) ⟨c, hc⟩
  rw [hcell]
  ring

theorem size_packed_symmetrize (hs : s.size = (n, n)) : (packed s.symmetrize).size = (n, n) := by
  rw [size, order_symmetrize hs]

/-! ## Quadratic forms -/

/-- A packed form counts the diagonal once and each cell above it twice. -/
theorem quadForm_packed (m : SymMatrix ℝ) (z : Column ℝ) :
    (packed m).quadForm z =
      ∑ r ∈ range z.size, m.entry r r * z.coord r ^ 2 +
        2 * ∑ c ∈ range z.size, ∑ r ∈ range c, m.entry r c * z.coord r * z.coord c := by
  have hterm : ∀ r c, z.coord r * m.entry r c * z.coord c = m.entry r c * z.coord r * z.coord c :=
    fun r c => by ring
  have hsymm : ∀ r c, m.entry r c * z.coord r * z.coord c = m.entry c r * z.coord c * z.coord r :=
    fun r c => by rw [m.entry_comm r c]; ring
  have hsquare : ∀ r, m.entry r r * z.coord r * z.coord r = m.entry r r * z.coord r ^ 2 :=
    fun r => by ring
  calc (packed m).quadForm z
      = ∑ r ∈ range z.size, ∑ c ∈ range z.size, m.entry r c * z.coord r * z.coord c := by
        rw [quadForm_real, sum_comm]
        exact sum_congr rfl fun r _ => sum_congr rfl fun c _ => hterm r c
    _ = _ := by
        rw [sum_square_of_symm hsymm]
        simp only [hsquare]

theorem quadForm_packed_symmetrize (hs : s.size = (n, n)) {z : Column ℝ} (hz : z.size = n) :
    (packed s.symmetrize).quadForm z = s.quadForm z :=
  (quadForm_eq_dotProduct _ z hz).trans (quadForm_symmetrize hs hz).symm

theorem quadForm?_eq_some (hs : s.size = (n, n)) {z : Column ℝ} (hz : z.size = n) :
    s.quadForm? z = some (s.quadForm z) := by
  rw [quadForm?, hz, if_pos hs]

theorem objective?_eq_some (hs : s.size = (n, n)) {returns z : Column ℝ}
    (hreturns : returns.size = n) (hz : z.size = n) (riskAversion : ℝ) :
    objective? returns s riskAversion z =
      some (∑ i ∈ range n, returns.coord i * z.coord i - riskAversion * s.quadForm z) := by
  rw [objective?, hreturns, hz, if_pos ⟨rfl, hs⟩, objective, expectedReturn, hreturns, hz,
    Nat.min_self, sumTo_real]

/-! ## One risk -/

/-- A square covariance, symmetric or not, has a symmetric part of its size, with the means
of opposite cells. The two give every allocation the same variance, which counts each pair of
assets once in the one and twice in the other, and the same objective; and inputs with the
one have the program of the inputs with the other. -/
theorem exists_symmetricPart (hs : s.size = (n, n)) :
    ∃ part, s.symmetrize? = some part ∧ (packed part).size = (n, n) ∧
      (∀ r < n, ∀ c < n, part.entry r c = (s.entry r c + s.entry c r) / 2) ∧
      (∀ returns z : Column ℝ, returns.size = n → z.size = n → ∀ riskAversion : ℝ,
        ∃ variance,
          variance = ∑ c ∈ range n, ∑ r ∈ range n, z.coord r * s.entry r c * z.coord c ∧
          variance = ∑ r ∈ range n, part.entry r r * z.coord r ^ 2 +
            2 * ∑ c ∈ range n, ∑ r ∈ range c, part.entry r c * z.coord r * z.coord c ∧
          s.quadForm? z = some variance ∧ (packed part).quadForm? z = some variance ∧
          ∃ value, value = ∑ i ∈ range n, returns.coord i * z.coord i - riskAversion * variance ∧
            objective? returns s riskAversion z = some value ∧
            objective? returns (packed part) riskAversion z = some value) ∧
      ∀ (inp : Inputs ℝ) (root : RootMethod ℝ) (epsZero : ℝ),
        { inp with covariance := s }.program? root epsZero =
          { inp with covariance := packed part }.program? root epsZero := by
  have hpart := size_packed_symmetrize hs
  refine ⟨s.symmetrize, symmetrize?_eq_some hs, hpart, fun r hr c hc => entry_symmetrize hs hr hc,
    fun returns z hreturns hz riskAversion => ?_, fun inp root epsZero => ?_⟩
  · have hform := quadForm_packed_symmetrize hs hz
    refine ⟨s.quadForm z, ?_, ?_, quadForm?_eq_some hs hz, ?_, _, rfl,
      objective?_eq_some hs hreturns hz riskAversion, ?_⟩
    · rw [quadForm_real, hz]
    · rw [← hform, quadForm_packed, hz]
    · rw [quadForm?_eq_some hpart hz, hform]
    · rw [objective?_eq_some hpart hreturns hz, hform]
  · rw [Inputs.program?, Inputs.program?, symmetrize?_eq_some hs, symmetrize?_eq_some hpart]
    rfl

/-- A covariance of two assets whose cells off the diagonal differ. -/
noncomputable def lopsidedTwo : Covariance ℝ :=
  .full (.ofFn 2 2 fun r c => (if r = c then 1 + 2 * r else 2 + 2 * r : ℕ))

/-- The mean of two and four stands in for both, and the variance stays what it is. -/
theorem exists_symmetricPart_lopsidedTwo :
    lopsidedTwo.size = (2, 2) ∧
      ∃ part, lopsidedTwo.symmetrize? = some part ∧ part.entry 0 1 = 3 ∧
        lopsidedTwo.quadForm? #[1, 2] = some 25 ∧ (packed part).quadForm? #[1, 2] = some 25 ∧
        objective? #[1, 1] (packed part) (1 / 5) #[1, 2] = some (-2) := by
  have hsize : lopsidedTwo.size = (2, 2) := rfl
  have hcell : ∀ r < 2, ∀ c < 2, lopsidedTwo.entry r c =
      (if r = c then 1 + 2 * r else 2 + 2 * r : ℕ) :=
    fun r hr c hc => RectMatrix.entry_ofFn _ hr hc
  obtain ⟨part, hpart, -, hmean, hrisk, -⟩ := exists_symmetricPart hsize
  obtain ⟨variance, hvariance, -, hgiven, hpacked, value, hvalue, -, hobjective⟩ :=
    hrisk #[1, 1] #[1, 2] rfl rfl (1 / 5)
  have hvariance : variance = 25 := by
    rw [hvariance]
    norm_num [sum_range_succ, hcell, Column.coord]
  have hvalue : value = -2 := by
    rw [hvalue, hvariance]
    norm_num [sum_range_succ, Column.coord]
  refine ⟨hsize, part, hpart, ?_, hvariance ▸ hgiven, hvariance ▸ hpacked, hvalue ▸ hobjective⟩
  rw [hmean 0 Nat.two_pos 1 Nat.one_lt_two]
  norm_num [hcell]

end Covariance

end Rebalancing
