-- SUMMARY: Step sizes that are levelled on the groups of a trade program's cone scale the cone onto itself.
import Mathlib
import Rebalancing.Proofs.Matrix.SpectralRange
import Rebalancing.Proofs.TradeProgram.NearestPoint

/-!
# Groups of a trade program's cone

A first-order solver takes a step size of its own for every row. Scaled by different
numbers a rotated cone does not stay what it is, so the step sizes of each of them are
levelled down to the least one. What is scaled by levelled step sizes lies in the cone just
when it did before, and on the half lines no step size is lost.
-/

open Finset

namespace Rebalancing

/-! ## Columns that are scaled -/

namespace Column

/-- The product of two columns of one size, entry by entry. -/
noncomputable def times (x y : Column ℝ) : Column ℝ := FirstOrder.zip (· * ·) x y

variable {x y : Column ℝ}

@[simp] theorem size_times (x y : Column ℝ) : (x.times y).size = x.size := size_tabulate _ _

theorem coord_times (h : y.size = x.size) (i : ℕ) :
    (x.times y).coord i = x.coord i * y.coord i :=
  coord_zip (mul_zero 0) h i

theorem on_times (h : y.size = x.size) (g : Stretch) :
    (x.times y).on g = (x.on g).times (y.on g) :=
  on_zip (mul_zero 0) h g

/-- A column that has one positive number in every place scales a rotated cone onto
itself. -/
theorem inRotated_times_iff {c : ℝ} (hc : 0 < c) (hsize : y.size = x.size)
    (hlevel : ∀ i < x.size, x.coord i = c) : (x.times y).InRotated ↔ y.InRotated := by
  have htimes : (x.times y).size = y.size := (size_times x y).trans hsize.symm
  have hcoord : ∀ i < y.size, (x.times y).coord i = c * y.coord i := by
    intro i hi
    rw [coord_times hsize, hlevel i (hsize ▸ hi)]
  match hy : y.size with
  | 0 => rw [InRotated, htimes, InRotated, hy]
  | 1 =>
    rw [InRotated, htimes, InRotated, hy]
    change 0 ≤ (x.times y).coord 0 ↔ 0 ≤ y.coord 0
    rw [hcoord 0 (by omega), mul_nonneg_iff_of_pos_left hc]
  | n + 2 =>
    have hrest : ∑ i ∈ range n, (x.times y).coord (i + 2) ^ 2 =
        c ^ 2 * ∑ i ∈ range n, y.coord (i + 2) ^ 2 := by
      rw [mul_sum]
      refine sum_congr rfl fun i hi => ?_
      rw [hcoord _ (by have := mem_range.mp hi; omega), mul_pow]
    have hbound : 2 * (c * y.coord 0) * (c * y.coord 1) =
        c ^ 2 * (2 * y.coord 0 * y.coord 1) := by ring
    rw [inRotated_iff (htimes.trans hy), inRotated_iff hy, hrest, hcoord 0 (by omega),
      hcoord 1 (by omega), hbound, mul_nonneg_iff_of_pos_left hc, mul_nonneg_iff_of_pos_left hc,
      mul_le_mul_iff_right₀ (pow_pos hc 2)]

/-- Levelled down, a column of positive numbers has one positive number in every place,
and none of its entries is below that. -/
theorem exists_levelDown_eq (hx : ∀ i < x.size, 0 < x.coord i) :
    ∃ c, 0 < c ∧ (∀ i < x.size, c ≤ x.coord i) ∧
      ∀ i < x.size, (ProductCone.levelDown x).coord i = c := by
  rcases Nat.eq_zero_or_pos x.size with hzero | hpos
  · exact ⟨1, one_pos, by omega, by omega⟩
  obtain ⟨c, hleast, hmem, hle⟩ := exists_least?_eq hpos
  refine ⟨c, (x.forall_mem_iff _).mpr hx c hmem, (x.forall_mem_iff _).mp hle, fun i hi => ?_⟩
  have hsize : i < (ProductCone.levelDown x).size := by
    rwa [ProductCone.levelDown, Array.size_replicate]
  rw [coord_eq_getElem hsize]
  simp [ProductCone.levelDown, hleast]

end Column

namespace ProductCone

open Column

@[simp] theorem size_levelDown {F : Type} [Scalar F] (x : Column F) :
    (levelDown x).size = x.size := Array.size_replicate

variable {k : ProductCone} {tau tau' : Column ℝ}

section Levelled

variable (h : k.Blockwise levelDown id tau tau') (hsize : tau.size = k.dim)
  (hpos : ∀ i < tau.size, 0 < tau.coord i)

include h hsize hpos

/-- Every block of levelled step sizes holds one positive number that is at most each of
those before. -/
theorem exists_level {g : Stretch} (hg : g ∈ k.groups) :
    ∃ c, 0 < c ∧ ∀ i < g.length, (tau'.on g).coord i = c ∧ c ≤ tau.coord (g.start + i) := by
  have hstop := (Stretch.bounds_of_mem_consecutive hg).2
  rw [Stretch.stop, Nat.zero_add] at hstop
  rw [dim_eq] at hsize
  obtain ⟨c, hc, hle, hlevel⟩ := exists_levelDown_eq (x := tau.on g) fun i hi => by
    rw [size_on] at hi
    rw [on, coord_slice _ _ hi]
    exact hpos _ (by omega)
  rw [size_on] at hle hlevel
  refine ⟨c, hc, fun i hi => ⟨?_, ?_⟩⟩
  · rw [h.block g hg, hlevel i hi]
  · exact (hle i hi).trans (coord_slice _ _ hi).le

/-- Levelled step sizes are positive, and at most those before. -/
theorem coord_levelled {i : ℕ} (hi : i < tau.size) :
    0 < tau'.coord i ∧ tau'.coord i ≤ tau.coord i := by
  rcases lt_or_ge i k.rotated.sum with hblock | hentry
  · obtain ⟨g, hg, hstart, hstop⟩ :=
      Stretch.exists_mem_consecutive i.zero_le (by rwa [Nat.zero_add])
    obtain ⟨c, hc, hlevel⟩ := exists_level h hsize hpos hg
    obtain ⟨j, rfl⟩ := Nat.exists_eq_add_of_le hstart
    have hj : j < g.length := by
      rw [Stretch.stop] at hstop
      omega
    obtain ⟨hcoord, hle⟩ := hlevel j hj
    rw [on, coord_slice _ _ hj] at hcoord
    rw [hcoord]
    exact ⟨hc, hle⟩
  · obtain ⟨j, rfl⟩ := Nat.exists_eq_add_of_le hentry
    rw [hsize, dim_eq] at hi
    rw [h.entry j (by omega)]
    exact ⟨hpos _ (by rw [hsize, dim_eq]; omega), le_rfl⟩

/-- Levelled step sizes scale the cone onto itself. -/
theorem contains_times_iff {y : Column ℝ} (hy : y.size = tau.size) :
    k.Contains (tau'.times y) ↔ k.Contains y := by
  have hy' : y.size = tau'.size := hy.trans h.size_eq.symm
  have hdim : y.size = k.dim := hy.trans hsize
  rw [contains_iff (((size_times _ _).trans hy'.symm).trans hdim), contains_iff hdim]
  refine and_congr (forall₂_congr fun g hg => ?_) (forall₂_congr fun i hi => ?_)
  · obtain ⟨c, hc, hlevel⟩ := exists_level h hsize hpos hg
    rw [on_times hy']
    refine inRotated_times_iff hc (by simp) fun i hi => ?_
    rw [size_on] at hi
    exact (hlevel i hi).1
  · rw [coord_times hy']
    refine mul_nonneg_iff_of_pos_left (coord_levelled h hsize hpos ?_).1
    rw [hsize, dim_eq]
    omega

end Levelled

end ProductCone

namespace TradeProgram

open Column

/-- Positive step sizes that are levelled on the groups of a cone for `n` assets with `m`
auxiliary variables stay positive, grow nowhere and stay as they are on the half lines.
They scale the cone onto itself, which is the cone whose columns the pass for nearest
points leaves as they are. Whatever the function for groups, it is called at most once on
any entry. -/
theorem exists_levelled {n m : ℕ} {tau : Column ℝ}
    (hsize : tau.size = (2 + n) + 3 * m + (1 + 2 * n)) (hpos : ∀ i < tau.size, 0 < tau.coord i) :
    (∃ s : Checked.Grouping ℝ,
      Checked.mapGroups? n m ProductCone.levelDown tau = some (.ok s) ∧
      (coneOf n m).mapGroups? ProductCone.levelDown tau = some s.column ∧
      s.column.size = tau.size ∧
      (∀ i < tau.size, 0 < s.column.coord i ∧ s.column.coord i ≤ tau.coord i) ∧
      (∀ i < 1 + 2 * n,
        s.column.coord ((2 + n) + 3 * m + i) = tau.coord ((2 + n) + 3 * m + i)) ∧
      ∀ y, y.size = tau.size →
        ((coneOf n m).Contains y ↔ (coneOf n m).Contains (s.column.times y)) ∧
        ∀ dual, (coneOf n m).Contains y ↔ Checked.nearest? n m dual y = some (.ok y)) ∧
    ∀ f : Column ℝ → Column ℝ, (∀ y, (f y).size = y.size) → ∀ x : Column ℝ, x.size = tau.size →
      ∃ s, Checked.mapGroups? n m f x = some (.ok s) ∧ s.CallsOnce f x := by
  have hdim : tau.size = (coneOf n m).dim := hsize.trans (dim_coneOf n m).symm
  refine ⟨?_, fun f hf x hx => ?_⟩
  · obtain ⟨tau', htau', hpass, hblocks⟩ :=
      Checked.exists_mapGroups ProductCone.size_levelDown hdim.ge
    refine ⟨_, hpass, htau', hblocks.size_eq, fun i => ProductCone.coord_levelled hblocks hdim hpos,
      fun i hi => ?_, fun y hy => ⟨?_, fun dual => (pass_eq_self_iff (hy.trans hdim) dual).symm⟩⟩
    · rw [← sum_rotated_coneOf]
      exact hblocks.entry i hi
    · exact (ProductCone.contains_times_iff hblocks hdim hpos hy).symm
  · obtain ⟨y, -, hpass, hblocks⟩ := Checked.exists_mapGroups hf (hx.trans hdim).ge
    exact ⟨_, hpass, Checked.callsOnce_of_blockwise (hx.trans hdim).ge hblocks⟩

section OneAsset

/-- Step sizes of one asset that would take a column out of the first rotated cone keep it
there once they are levelled. -/
theorem exists_levelled_oneAsset :
    Array.size (#[4, 2, 3, 1, 5, 6, 7, 8, 9] : Column ℝ) = (2 + 1) + 3 * 1 + (1 + 2 * 1) ∧
      (∀ i < 9, 0 < coord (#[4, 2, 3, 1, 5, 6, 7, 8, 9] : Column ℝ) i) ∧
      ∃ s : Checked.Grouping ℝ,
        Checked.mapGroups? 1 1 ProductCone.levelDown #[4, 2, 3, 1, 5, 6, 7, 8, 9] =
          some (.ok s) ∧
        s.column.coord 8 = 9 ∧
        (coneOf 1 1).Contains (s.column.times #[1, 1 / 2, 1, 2, 1, 2, 0, 0, 1]) := by
  have hsize : Array.size (#[4, 2, 3, 1, 5, 6, 7, 8, 9] : Column ℝ) =
      (2 + 1) + 3 * 1 + (1 + 2 * 1) := rfl
  have hpos : ∀ i < 9, 0 < coord (#[4, 2, 3, 1, 5, 6, 7, 8, 9] : Column ℝ) i := by
    intro i hi
    interval_cases i <;> simp [coord]
  obtain ⟨⟨s, hpass, -, -, -, hkept, hscaled⟩, -⟩ := exists_levelled hsize hpos
  have hinside : (coneOf 1 1).Contains #[1, 1 / 2, 1, 2, 1, 2, 0, 0, 1] :=
    contains_coneOf_one rfl (by norm_num [coord])
  exact ⟨hsize, hpos, s, hpass, hkept 2 (by omega), (hscaled _ hinside.1).1.mp hinside⟩

end OneAsset

end TradeProgram

end Rebalancing
