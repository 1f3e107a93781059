-- SUMMARY: Every column of the rows of a trade program is carried to the one nearest point of the program's cone and of its dual.
import Mathlib
import Rebalancing.Proofs.Checked.ConePass

/-!
# Nearest points for trade programs

A first-order solver moves the slack of a program and its multipliers to the nearest
point of the cone after every step. For the cone of a trade program that is done in
place, block by block. Whatever column of its rows it is given, the pass ends, and what it
leaves is the nearest point both of the cone and of its dual.
-/

namespace Rebalancing

namespace TradeProgram

open Column

/-- The cone of a trade program has the rows of its system. -/
theorem rows_eq_dim_cone (p : TradeProgram ℝ) : p.rows = p.cone.dim := by
  rw [cone_eq_coneOf, dim_coneOf, rows, GrowthTree.rows, auxiliaries]
  omega

section Nearest

variable {n m : ℕ} {x : Column ℝ}

/-- A pass over a column of the right size overwrites it by a column that splits it. -/
theorem exists_pass (hx : x.size = (coneOf n m).dim) :
    ∃ p, (∀ dual, Checked.nearest? n m dual x = some (.ok p)) ∧
      (coneOf n m).nearest? x = some p ∧ Splits (coneOf n m).Contains x p := by
  obtain ⟨p, hp, hsplits⟩ := ProductCone.exists_splits_nearest hx
  refine ⟨p, fun dual => ?_, hp, hsplits⟩
  rw [Checked.nearest?_eq, hp, Option.map_some]

/-- A pass leaves the columns of the cone as they are, and no others. -/
theorem pass_eq_self_iff (hx : x.size = (coneOf n m).dim) (dual : Bool) :
    Checked.nearest? n m dual x = some (.ok x) ↔ (coneOf n m).Contains x := by
  obtain ⟨p, hpass, -, hsplits⟩ := exists_pass hx
  rw [hpass dual, Option.some_inj, Except.ok.injEq]
  exact ProductCone.eq_iff_contains_of_splits hsplits

/-- Every column of the rows of a trade program with `n` assets and `m` auxiliary
variables is overwritten by one and the same column, for the cone and for its dual. It
splits the column, so it is the nearest point of both. A second pass leaves it as it is,
and the first one does so only with the columns of the cone. -/
theorem exists_nearest (hx : x.size = (2 + n) + 3 * m + (1 + 2 * n)) :
    (∀ p : TradeProgram ℝ, p.assets = n → p.auxiliaries = m →
      p.conic.cone = coneOf n m ∧ p.conic.system.rows = x.size) ∧
    ∃ p, (∀ dual, Checked.nearest? n m dual x = some (.ok p)) ∧
      (coneOf n m).nearest? x = some p ∧ Splits (coneOf n m).Contains x p ∧
      NearestIn (coneOf n m).Contains x p ∧ NearestIn (coneOf n m).DualContains x p ∧
      (∀ dual, Checked.nearest? n m dual p = some (.ok p)) ∧
      (p = x ↔ (coneOf n m).Contains x) := by
  have hdim : x.size = (coneOf n m).dim := hx.trans (dim_coneOf n m).symm
  refine ⟨?_, ?_⟩
  · rintro p rfl rfl
    exact ⟨rfl, (rows_eq_dim_cone p).trans hdim.symm⟩
  obtain ⟨p, hpass, hp, hsplits⟩ := exists_pass hdim
  have hnearest := ProductCone.nearestIn_of_splits hsplits
  refine ⟨p, hpass, hp, hsplits, hnearest, ?_, ?_, ProductCone.eq_iff_contains_of_splits hsplits⟩
  · simpa only [NearestIn, ProductCone.dualContains_iff] using hnearest
  · exact fun dual => (pass_eq_self_iff (hsplits.size_eq.trans hdim) dual).mpr hsplits.mem

end Nearest

section OneAsset

/-- What lies in the cone for one asset with one auxiliary variable, entry by entry. -/
theorem contains_coneOf_one {x : Column ℝ} (hx : x.size = 9)
    (h : (0 ≤ x.coord 0 ∧ 0 ≤ x.coord 1 ∧ x.coord 2 ^ 2 ≤ 2 * x.coord 0 * x.coord 1) ∧
      (0 ≤ x.coord 3 ∧ 0 ≤ x.coord 4 ∧ x.coord 5 ^ 2 ≤ 2 * x.coord 3 * x.coord 4) ∧
      0 ≤ x.coord 6 ∧ 0 ≤ x.coord 7 ∧ 0 ≤ x.coord 8) : (coneOf 1 1).Contains x := by
  obtain ⟨hrisk, htree, h6, h7, h8⟩ := h
  refine ⟨hx, (x.slice_inRotated_iff 0 1).mpr ?_, (x.slice_inRotated_iff 3 1).mpr ?_, ?_⟩
  · simpa using hrisk
  · simpa using htree
  · intro i hi
    have hi : i < 3 := hi
    interval_cases i <;> assumption

theorem splits_oneAsset :
    Splits (coneOf 1 1).Contains #[1, 1, 1, -1, -1, -1, -1, 2, 3] #[1, 1, 1, 0, 0, 0, 0, 2, 3] where
  size_eq := rfl
  mem := contains_coneOf_one rfl (by simp [coord])
  residual := by
    refine contains_coneOf_one (size_minus _ _) ?_
    simp only [coord_minus (x := #[1, 1, 1, 0, 0, 0, 0, 2, 3])
      (y := #[1, 1, 1, -1, -1, -1, -1, 2, 3]) rfl]
    simp [coord]
  orthogonal := by
    simp only [product, coord_minus (x := #[1, 1, 1, -1, -1, -1, -1, 2, 3])
      (y := #[1, 1, 1, 0, 0, 0, 0, 2, 3]) rfl]
    simp [coord, Finset.sum_range_succ]

/-- In a column of one asset a risk in its cone stays, a block that points away from its
cone is left with the tip, and the half lines lose what is below zero. -/
theorem exists_nearest_oneAsset :
    Array.size (#[1, 1, 1, -1, -1, -1, -1, 2, 3] : Column ℝ) = (2 + 1) + 3 * 1 + (1 + 2 * 1) ∧
      ∀ dual, Checked.nearest? 1 1 dual (#[1, 1, 1, -1, -1, -1, -1, 2, 3] : Column ℝ) =
        some (.ok #[1, 1, 1, 0, 0, 0, 0, 2, 3]) := by
  obtain ⟨-, p, hrun, -, -, hnearest, -⟩ :=
    exists_nearest (n := 1) (m := 1) (x := #[1, 1, 1, -1, -1, -1, -1, 2, 3]) rfl
  obtain rfl := hnearest.unique (ProductCone.nearestIn_of_splits splits_oneAsset)
  exact ⟨rfl, hrun⟩

end OneAsset

end TradeProgram

end Rebalancing
