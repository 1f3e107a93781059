-- SUMMARY: The tight values of a growth tree put every three rows on the surface of their cone, reach the product of the leaves in the last row, and are the greatest numbers that keep the cones.
import Mathlib
import Rebalancing.Proofs.Checked.TightValues
import Rebalancing.Proofs.GrowthTree.Region

/-!
# The greatest numbers of the inner nodes

A cone of the tree bounds the square of an inner node by the product of its children, and
the children are not below zero. So, from the leaves upwards, no numbers that keep the
cones exceed the tight ones. The tight values leave no room in any cone, and their root
stands for the product of all leaves.
-/

open Finset

namespace Rebalancing

namespace GrowthTree

/-- The three rows of inner node `k` are not below zero and lie on the surface of the
rotated quadratic cone. -/
structure OnCone (s : Column ℝ) (k : ℕ) : Prop where
  left_nonneg : 0 ≤ s.coord (3 * k)
  right_nonneg : 0 ≤ s.coord (3 * k + 1)
  tip_nonneg : 0 ≤ s.coord (3 * k + 2)
  tip_sq_eq : s.coord (3 * k + 2) ^ 2 = 2 * s.coord (3 * k) * s.coord (3 * k + 1)

/-! ## Number of leaves -/

/-- The leaves of a tree are the least power of two that holds its assets. -/
theorem isLeast_leaves {F : Type} (t : GrowthTree F) (h : 0 < t.assets) :
    IsLeast {m | t.assets ≤ m ∧ ∃ d, m = 2 ^ d} t.leaves := by
  refine ⟨⟨t.assets_le_leaves, depth t.assets, rfl⟩, ?_⟩
  rintro _ ⟨hle, d, rfl⟩
  -- A smaller power is at most the half, and the half is below the number of assets.
  have hhalf : 2 ^ depth t.assets < 2 ^ (d + 1) := by
    have hlt := two_pow_depth_lt h
    rw [pow_succ]
    omega
  exact Nat.pow_le_pow_right Nat.two_pos
    (Nat.le_of_lt_succ ((Nat.pow_lt_pow_iff_right Nat.one_lt_two).mp hhalf))

/-! ## Values of the nodes -/

section Values

variable {inner : ℕ} {leaf val : ℕ → ℝ}

/-- Numbers whose leaves do not exceed given ones, and whose inner nodes keep the cones,
do not exceed the tight values. -/
theorem le_tightValue (hleaf : ∀ i, val (inner + i) ≤ leaf i)
    (hnodes : ∀ k < inner, 0 ≤ val (2 * k + 1) ∧ 0 ≤ val (2 * k + 2) ∧
      val k ^ 2 ≤ val (2 * k + 1) * val (2 * k + 2)) (j : ℕ) :
    val j ≤ tightValue inner leaf j := by
  -- By the recursion of the tight values: the children of an inner node come first.
  induction j using tightValue.induct inner with
  | case1 j hj ihl ihr =>
    obtain ⟨hl, hr, hsq⟩ := hnodes j hj
    rw [tightValue_inner hj]
    refine (le_abs_self _).trans (Real.abs_le_sqrt ?_)
    exact hsq.trans (mul_le_mul ihl ihr hr (hl.trans ihl))
  | case2 j hj =>
    obtain ⟨i, rfl⟩ := Nat.exists_eq_add_of_le (not_lt.mp hj)
    rw [tightValue_leaf]
    exact hleaf i

end Values

variable {t : GrowthTree ℝ} {delta lam : Column ℝ}

section Trade

variable (hdelta : delta.size = t.assets) (hlam : lam.size = t.assets)

include hdelta hlam

theorem nodeValue_stacked_inner (u : Column ℝ) {k : ℕ} (hk : k < t.inner) :
    t.nodeValue (delta ++ lam ++ u) k = u.coord k := by
  have hindex : 2 * t.assets + k = delta.size + lam.size + k := by omega
  rw [t.nodeValue_inner _ hk, hindex, coord_stacked_rest]

/-- The leaves are the new growth, whatever the inner nodes hold. -/
theorem nodeValue_stacked_leaf (u : Column ℝ) {i : ℕ} (hi : i < t.assets) :
    t.nodeValue (delta ++ lam ++ u) (t.inner + i) =
      (Column.tabulate t.assets (t.newGrowth delta lam)).coord i := by
  rw [nodeValue_stacked hdelta hlam _ hi, t.coord_tabulate_newGrowth _ _ hi]

/-- With the tight values for a trade every node holds its tight value. -/
theorem nodeValue_tightFor (j : ℕ) :
    t.nodeValue (delta ++ lam ++ t.tightFor delta lam) j =
      tightValue t.inner (t.paddedLeaf (Column.tabulate t.assets (t.newGrowth delta lam))) j := by
  refine t.nodeValue_eq_tightValue (fun i hi => nodeValue_stacked_leaf hdelta hlam _ hi)
    (fun k hk => ?_) j
  rw [← t.nodeValue_inner _ hk, nodeValue_stacked_inner hdelta hlam _ hk]
  rfl

/-- No numbers of the inner nodes that keep the cones exceed the tight values. -/
theorem coord_le_tightFor {u : Column ℝ}
    (hcones : ∀ k < t.inner, InCone (t.slack (delta ++ lam ++ u)) k) {k : ℕ} (hk : k < t.inner) :
    u.coord k ≤ (t.tightFor delta lam).coord k := by
  have hleaf := t.nodeValue_leaf fun i hi => nodeValue_stacked_leaf hdelta hlam u hi
  have hnodes := fun j hj => (t.inCone_slack_iff _ hj).mp (hcones j hj)
  have hle := le_tightValue (fun i => (hleaf i).le) hnodes k
  rwa [nodeValue_stacked_inner hdelta hlam u hk, ← nodeValue_tightFor hdelta hlam,
    nodeValue_stacked_inner hdelta hlam _ hk] at hle

variable (hfloor : 0 ≤ t.floor) (hgrowth : ∀ i < t.assets, 0 ≤ t.newGrowth delta lam i)

include hfloor hgrowth

omit hdelta hlam in
theorem paddedLeaf_newGrowth_nonneg (i : ℕ) :
    0 ≤ t.paddedLeaf (Column.tabulate t.assets (t.newGrowth delta lam)) i := by
  refine t.paddedLeaf_nonneg (fun i hi => ?_) hfloor i
  rw [t.coord_tabulate_newGrowth _ _ hi]
  exact hgrowth i hi

theorem nodeValue_tightFor_nonneg (j : ℕ) :
    0 ≤ t.nodeValue (delta ++ lam ++ t.tightFor delta lam) j := by
  rw [nodeValue_tightFor hdelta hlam]
  exact tightValue_nonneg (paddedLeaf_newGrowth_nonneg hfloor hgrowth) j

theorem nodeValue_tightFor_sq {k : ℕ} (hk : k < t.inner) :
    t.nodeValue (delta ++ lam ++ t.tightFor delta lam) k ^ 2 =
      t.nodeValue (delta ++ lam ++ t.tightFor delta lam) (2 * k + 1) *
        t.nodeValue (delta ++ lam ++ t.tightFor delta lam) (2 * k + 2) := by
  simp only [nodeValue_tightFor hdelta hlam]
  exact tightValue_sq (paddedLeaf_newGrowth_nonneg hfloor hgrowth) hk

theorem onCone_tightFor {k : ℕ} (hk : k < t.inner) :
    OnCone (t.slack (delta ++ lam ++ t.tightFor delta lam)) k := by
  have hnonneg := nodeValue_tightFor_nonneg hdelta hlam hfloor hgrowth
  have hleft := t.slack_value (delta ++ lam ++ t.tightFor delta lam) (by omega) (t.row_left hk)
  have hright := t.slack_value (delta ++ lam ++ t.tightFor delta lam) (by omega) (t.row_right hk)
  refine ⟨hleft ▸ hnonneg _, hright ▸ hnonneg _, ?_, ?_⟩
  · rw [t.slack_tip _ hk, ← t.nodeValue_inner _ hk]
    exact mul_nonneg (Real.sqrt_nonneg 2) (hnonneg k)
  · rw [t.slack_tip_sq _ hk, hleft, hright,
      nodeValue_tightFor_sq hdelta hlam hfloor hgrowth hk, mul_assoc]

/-- The last row, with the floor added back, is the root: as a power it is the product of
all leaves. -/
theorem slack_root_tightFor_pow :
    ((t.slack (delta ++ lam ++ t.tightFor delta lam)).coord (3 * t.inner) + t.floor) ^ t.leaves =
      (∏ i ∈ range t.assets, t.newGrowth delta lam i) * t.floor ^ (t.leaves - t.assets) := by
  have hsq := fun k (hk : k < t.inner) => nodeValue_tightFor_sq hdelta hlam hfloor hgrowth hk
  rw [t.slack_root, sub_add_cancel]
  calc t.nodeValue (delta ++ lam ++ t.tightFor delta lam) 0 ^ 2 ^ depth t.assets
      = levelProduct (t.nodeValue (delta ++ lam ++ t.tightFor delta lam)) (depth t.assets) :=
        root_pow_eq_levelProduct hsq
    _ = _ := t.levelProduct_nodeValue _
    _ = _ := by
        rw [prod_congr rfl fun i hi => nodeValue_stacked hdelta hlam _ (mem_range.mp hi)]

end Trade

/-- For a trade whose new growth is not below zero the tight values, which are those that
the loops over the heap leave, put every three rows on the surface of their cone and reach
the product of the leaves in the last row. No other numbers of the inner nodes that keep
the cones exceed them. -/
theorem exists_greatest (growth : Column ℝ) (coupling floor : ℝ) (hgrowth : 0 < growth.size)
    (hfloor : 0 ≤ floor) :
    ∃ t, build? growth coupling floor = some t ∧
      IsLeast {m | growth.size ≤ m ∧ ∃ d, m = 2 ^ d} t.leaves ∧
      ∀ delta lam leaves : Column ℝ, delta.size = growth.size → lam.size = growth.size →
        leaves.size = growth.size →
        (∀ i < growth.size,
          leaves.coord i = growth.coord i + coupling * delta.coord i - lam.coord i) →
        (∀ i < growth.size, 0 ≤ leaves.coord i) →
        ∃ u, t.tight? leaves floor = some u ∧ t.tightInPlace? leaves floor = some u ∧
          u.size = t.leaves - 1 ∧
          (∀ k < t.leaves - 1, OnCone (t.slack (delta ++ lam ++ u)) k) ∧
          ((t.slack (delta ++ lam ++ u)).coord (3 * (t.leaves - 1)) + floor) ^ t.leaves =
            (∏ i ∈ range growth.size, leaves.coord i) * floor ^ (t.leaves - growth.size) ∧
          ∀ u' : Column ℝ, (∀ k < t.leaves - 1, InCone (t.slack (delta ++ lam ++ u')) k) →
            ∀ k < t.leaves - 1, u'.coord k ≤ u.coord k := by
  have hsome : growth.isEmpty = false := by simpa using Array.size_pos_iff.mp hgrowth
  let t : GrowthTree ℝ := { growth, coupling, floor }
  refine ⟨t, by rw [build?, hsome]; rfl, t.isLeast_leaves hgrowth, ?_⟩
  intro delta lam leaves hdelta hlam hsize hleaves hnonneg
  have heq : leaves = Column.tabulate t.assets (t.newGrowth delta lam) := by
    refine Column.ext_coord (hsize.trans (Column.size_tabulate _ _).symm) fun i hi => ?_
    have hasset : i < t.assets := hi.trans_eq hsize
    rw [t.coord_tabulate_newGrowth _ _ hasset]
    exact hleaves i hasset
  have hnew : ∀ i < t.assets, 0 ≤ t.newGrowth delta lam i :=
    fun i hi => (hnonneg i hi).trans_eq (hleaves i hi)
  have htight : t.tight? leaves floor = some (t.tightFor delta lam) := by
    have hassets : leaves.size = t.assets := hsize
    rw [tight?, if_pos hassets, heq]
    rfl
  refine ⟨_, htight, (t.tightInPlace?_eq leaves floor).trans htight, t.size_tightFor _ _,
    fun k hk => onCone_tightFor hdelta hlam hfloor hnew hk, ?_,
    fun u' hcones k hk => coord_le_tightFor hdelta hlam hcones hk⟩
  rw [prod_congr rfl fun i hi => hleaves i (mem_range.mp hi)]
  exact slack_root_tightFor_pow hdelta hlam hfloor hnew

/-- Three assets of which one gains and one loses. With the floor on the fourth leaf the root
is the fourth root of their product and the floor. -/
theorem exists_greatest_three_assets :
    (0 < (#[1, 2, 4] : Column ℝ).size ∧ (0 : ℝ) ≤ 2) ∧
      ∃ t u, build? (#[1, 2, 4] : Column ℝ) (1 / 2) 2 = some t ∧
        t.tightInPlace? (#[2, 2, 3] : Column ℝ) 2 = some u ∧
        ((t.slack (#[2, 0, 0] ++ #[0, 0, 1] ++ u)).coord 9 + 2) ^ 4 = 24 ∧
        ∀ u' : Column ℝ, (∀ k < 3, InCone (t.slack (#[2, 0, 0] ++ #[0, 0, 1] ++ u')) k) →
          ∀ k < 3, u'.coord k ≤ u.coord k := by
  have hsize : 0 < (#[1, 2, 4] : Column ℝ).size := by decide
  refine ⟨⟨hsize, zero_le_two⟩, ?_⟩
  obtain ⟨t, ht, -, hgreatest⟩ := exists_greatest #[1, 2, 4] (1 / 2) 2 hsize zero_le_two
  obtain rfl := Option.some.inj ht
  have hleaves : ∀ i < 3, Column.coord #[(2 : ℝ), 2, 3] i =
      Column.coord #[(1 : ℝ), 2, 4] i + 1 / 2 * Column.coord #[(2 : ℝ), 0, 0] i -
        Column.coord #[(0 : ℝ), 0, 1] i := by
    intro i hi
    interval_cases i <;> norm_num [Column.coord]
  have hnonneg : ∀ i < 3, 0 ≤ Column.coord #[(2 : ℝ), 2, 3] i := by
    intro i hi
    interval_cases i <;> norm_num [Column.coord]
  obtain ⟨u, -, hu, -, -, hroot, hmax⟩ :=
    hgreatest #[2, 0, 0] #[0, 0, 1] #[2, 2, 3] rfl rfl rfl hleaves hnonneg
  refine ⟨_, u, ht, hu, hroot.trans ?_, hmax⟩
  change (∏ i ∈ range 3, Column.coord #[(2 : ℝ), 2, 3] i) * 2 ^ 1 = 24
  norm_num [Column.coord, prod_range_succ]

end GrowthTree

end Rebalancing
