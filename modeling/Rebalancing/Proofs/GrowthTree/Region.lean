-- SUMMARY: The trades that a growth tree admits are those whose new growth has a geometric mean of at least the floor.
import Mathlib
import Rebalancing.Proofs.GrowthTree.Tight

/-!
# The region of a growth tree

A growth tree states a bound on a product of any number of factors by cones of
three rows. The bound holds of a trade if and only if numbers of the inner nodes
exist that put the rows into the cones: the cones bound the root by the leaves
level by level, and the tight values reach that bound.
-/

open Finset

namespace Rebalancing

namespace GrowthTree

variable (t : GrowthTree ℝ) {x : Column ℝ}

/-- The product of all leaves is that of the assets times one floor for every leaf
beyond them. -/
theorem levelProduct_nodeValue (x : Column ℝ) :
    levelProduct (t.nodeValue x) (depth t.assets) =
      (∏ i ∈ range t.assets, t.nodeValue x (t.inner + i)) * t.floor ^ (t.leaves - t.assets) :=
  levelProduct_padded t.assets_le_leaves (fun _ _ => rfl)
    fun _ hi _ => t.nodeValue_padding x hi

/-- A power of the floor for every leaf bounds the product of all leaves if and only
if one for every asset bounds the product of the assets. -/
theorem floor_pow_le_iff {p : ℝ} (hassets : 0 < t.assets) (hfloor : 0 ≤ t.floor) (hp : 0 ≤ p) :
    t.floor ^ t.leaves ≤ p * t.floor ^ (t.leaves - t.assets) ↔ t.floor ^ t.assets ≤ p := by
  -- With a floor of zero both bounds hold; above zero the padding cancels.
  rcases hfloor.eq_or_lt with hzero | hpos
  · have hleaves : t.leaves ≠ 0 := (Nat.two_pow_pos (depth t.assets)).ne'
    rw [← hzero, zero_pow hleaves, zero_pow hassets.ne']
    exact iff_of_true (by positivity) hp
  · rw [← Nat.add_sub_cancel' t.assets_le_leaves, pow_add, Nat.add_sub_cancel_left]
    exact mul_le_mul_iff_left₀ (by positivity)

/-! ## From the cones to the bound -/

/-- Every node is the root or a child of an inner node. -/
theorem nodeValue_nonneg (hfloor : 0 ≤ t.floor) (h : InCones t.inner (t.slack x)) {j : ℕ}
    (hj : j < t.inner + t.leaves) : 0 ≤ t.nodeValue x j := by
  obtain ⟨hnodes, hroot⟩ := (t.inCones_slack_iff x).mp h
  have hleaves := t.inner_succ
  rcases Nat.eq_zero_or_pos j with rfl | hpos
  · exact hfloor.trans hroot
  -- The parent of `j` is `(j - 1) / 2`; whether `j` is even says which child it is.
  obtain ⟨hleft, hright, -⟩ := hnodes ((j - 1) / 2) (by omega)
  rcases Nat.even_or_odd' j with ⟨k, rfl | rfl⟩
  · have hk : 2 * ((2 * k - 1) / 2) + 2 = 2 * k := by omega
    exact hk ▸ hright
  · have hk : 2 * ((2 * k + 1 - 1) / 2) + 1 = 2 * k + 1 := by omega
    exact hk ▸ hleft

theorem floor_pow_le_of_inCones (hassets : 0 < t.assets) (hfloor : 0 ≤ t.floor)
    (h : InCones t.inner (t.slack x)) :
    t.floor ^ t.assets ≤ ∏ i ∈ range t.assets, t.nodeValue x (t.inner + i) := by
  obtain ⟨hnodes, hroot⟩ := (t.inCones_slack_iff x).mp h
  have hasset : ∀ i ∈ range t.assets, 0 ≤ t.nodeValue x (t.inner + i) := by
    intro i hi
    have hle := t.assets_le_leaves
    have hlt := mem_range.mp hi
    exact t.nodeValue_nonneg hfloor h (by omega)
  rw [← t.floor_pow_le_iff hassets hfloor (prod_nonneg hasset)]
  calc t.floor ^ t.leaves ≤ t.nodeValue x 0 ^ t.leaves := pow_le_pow_left₀ hfloor hroot _
    _ ≤ levelProduct (t.nodeValue x) (depth t.assets) :=
      root_pow_le_levelProduct (hfloor.trans hroot) fun k hk => (hnodes k hk).2.2
    _ = _ := t.levelProduct_nodeValue x

/-! ## From the bound to the cones -/

/-- The tight values put the rows into the cones wherever the bound holds. -/
theorem inCones_of_tight (leaves : Column ℝ) (hfloor : 0 ≤ t.floor)
    (hleaves : ∀ i < t.assets, t.nodeValue x (t.inner + i) = leaves.coord i)
    (htight : ∀ k < t.inner, x.coord (2 * t.assets + k) = (t.tight leaves t.floor).coord k)
    (hassets : 0 < t.assets) (hnonneg : ∀ i < t.assets, 0 ≤ leaves.coord i)
    (hprod : t.floor ^ t.assets ≤ ∏ i ∈ range t.assets, leaves.coord i) :
    InCones t.inner (t.slack x) := by
  have hpad := t.paddedLeaf_nonneg hnonneg hfloor
  have hvalue := t.nodeValue_eq_tightValue hleaves htight
  have hvalue_nonneg : ∀ j, 0 ≤ t.nodeValue x j := fun j => hvalue j ▸ tightValue_nonneg hpad j
  have hsq : ∀ k < t.inner,
      t.nodeValue x k ^ 2 = t.nodeValue x (2 * k + 1) * t.nodeValue x (2 * k + 2) := by
    intro k hk
    rw [hvalue, hvalue, hvalue, tightValue_sq hpad hk]
  refine (t.inCones_slack_iff x).mpr
    ⟨fun k hk => ⟨hvalue_nonneg _, hvalue_nonneg _, (hsq k hk).le⟩, ?_⟩
  -- Only the root is left, and it is easier to compare with the floor as a power.
  refine le_of_pow_le_pow_left₀ (Nat.two_pow_pos (depth t.assets)).ne' (hvalue_nonneg 0) ?_
  calc t.floor ^ t.leaves
      ≤ (∏ i ∈ range t.assets, leaves.coord i) * t.floor ^ (t.leaves - t.assets) :=
        (t.floor_pow_le_iff hassets hfloor
          (prod_nonneg fun i hi => hnonneg i (mem_range.mp hi))).mpr hprod
    _ = levelProduct (t.nodeValue x) (depth t.assets) := by
        rw [levelProduct_nodeValue, prod_congr rfl fun i hi => hleaves i (mem_range.mp hi)]
    _ = t.nodeValue x 0 ^ 2 ^ depth t.assets := (root_pow_eq_levelProduct hsq).symm

/-! ## The region -/

section Stacked

variable {delta lam : Column ℝ} (rest : Column ℝ)

theorem coord_stacked_delta {i : ℕ} (h : i < delta.size) :
    (delta ++ lam ++ rest).coord i = delta.coord i := by
  rw [Column.coord_append, if_pos (by rw [Array.size_append]; omega), Column.coord_append, if_pos h]

theorem coord_stacked_lam {i : ℕ} (h : i < lam.size) :
    (delta ++ lam ++ rest).coord (delta.size + i) = lam.coord i := by
  rw [Column.coord_append, if_pos (by rw [Array.size_append]; omega), Column.coord_append,
    if_neg (by omega), Nat.add_sub_cancel_left]

theorem coord_stacked_rest (k : ℕ) :
    (delta ++ lam ++ rest).coord (delta.size + lam.size + k) = rest.coord k := by
  rw [Column.coord_append, if_neg (by rw [Array.size_append]; omega), Array.size_append,
    Nat.add_sub_cancel_left]

end Stacked

/-- The growth proxy of an asset after a trade. -/
noncomputable def newGrowth (delta lam : Column ℝ) (i : ℕ) : ℝ :=
  t.growth.coord i + t.coupling * delta.coord i - lam.coord i

/-- The bound that the tree states of a trade. -/
structure Admits (delta lam : Column ℝ) : Prop where
  newGrowth_nonneg : ∀ i < t.assets, 0 ≤ t.newGrowth delta lam i
  floor_pow_le : t.floor ^ t.assets ≤ ∏ i ∈ range t.assets, t.newGrowth delta lam i

theorem coord_tabulate_newGrowth (delta lam : Column ℝ) {i : ℕ} (hi : i < t.assets) :
    (Column.tabulate t.assets (t.newGrowth delta lam)).coord i = t.newGrowth delta lam i := by
  rw [Column.coord_tabulate, if_pos hi]

/-- The tight values for a trade. -/
noncomputable def tightFor (delta lam : Column ℝ) : Column ℝ :=
  t.tight (Column.tabulate t.assets (t.newGrowth delta lam)) t.floor

theorem size_tightFor (delta lam : Column ℝ) : (t.tightFor delta lam).size = t.inner :=
  t.size_tight _ _

section Region

variable {t} {delta lam : Column ℝ}

theorem nodeValue_stacked (hdelta : delta.size = t.assets) (hlam : lam.size = t.assets)
    (rest : Column ℝ) {i : ℕ} (hi : i < t.assets) :
    t.nodeValue (delta ++ lam ++ rest) (t.inner + i) = t.newGrowth delta lam i := by
  rw [t.nodeValue_asset _ hi, coord_stacked_delta rest (hdelta ▸ hi), ← hdelta,
    coord_stacked_lam rest (hlam ▸ hi), newGrowth]

theorem admits_of_inCones (hassets : 0 < t.assets) (hfloor : 0 ≤ t.floor)
    (hdelta : delta.size = t.assets) (hlam : lam.size = t.assets) {rest : Column ℝ}
    (h : InCones t.inner (t.slack (delta ++ lam ++ rest))) : t.Admits delta lam := by
  refine ⟨fun i hi => ?_, ?_⟩
  · rw [← nodeValue_stacked hdelta hlam rest hi]
    exact t.nodeValue_nonneg hfloor h (Nat.add_lt_add_left (hi.trans_le t.assets_le_leaves) _)
  · rw [← prod_congr rfl fun i hi => nodeValue_stacked hdelta hlam rest (mem_range.mp hi)]
    exact t.floor_pow_le_of_inCones hassets hfloor h

theorem inCones_tightFor (hassets : 0 < t.assets) (hfloor : 0 ≤ t.floor)
    (hdelta : delta.size = t.assets) (hlam : lam.size = t.assets) (rest : Column ℝ)
    (h : t.Admits delta lam) :
    InCones t.inner (t.slack (delta ++ lam ++ (t.tightFor delta lam ++ rest))) := by
  let leaves : Column ℝ := Column.tabulate t.assets (t.newGrowth delta lam)
  have hleaf : ∀ i < t.assets, leaves.coord i = t.newGrowth delta lam i :=
    fun i hi => t.coord_tabulate_newGrowth delta lam hi
  refine t.inCones_of_tight leaves hfloor (fun i hi => ?_) (fun k hk => ?_) hassets
    (fun i hi => ?_) ?_
  · rw [nodeValue_stacked hdelta hlam _ hi, hleaf i hi]
  · have hsize : k < (t.tightFor delta lam).size := by rwa [size_tightFor]
    have hindex : 2 * t.assets + k = delta.size + lam.size + k := by omega
    rw [hindex, coord_stacked_rest, Column.coord_append, if_pos hsize, tightFor]
  · exact hleaf i hi ▸ h.newGrowth_nonneg i hi
  · exact h.floor_pow_le.trans_eq (prod_congr rfl fun i hi => (hleaf i (mem_range.mp hi)).symm)

end Region

/-- Numbers of the inner nodes that put the rows into the cones exist exactly for
the trades whose new growth is not below zero and has the floor, or more, as its
geometric mean. -/
theorem exists_inCones_iff (growth : Column ℝ) (coupling floor : ℝ) (hgrowth : 0 < growth.size)
    (hfloor : 0 ≤ floor) :
    ∃ t, build? growth coupling floor = some t ∧
      ∀ delta lam : Column ℝ, delta.size = growth.size → lam.size = growth.size →
        ((∃ u : Column ℝ, u.size = t.inner ∧ InCones t.inner (t.slack (delta ++ lam ++ u))) ↔
          (∀ i < growth.size, 0 ≤ growth.coord i + coupling * delta.coord i - lam.coord i) ∧
          floor ^ growth.size ≤
            ∏ i ∈ range growth.size, (growth.coord i + coupling * delta.coord i - lam.coord i)) := by
  have hsome : growth.isEmpty = false := by simpa using Array.size_pos_iff.mp hgrowth
  let t : GrowthTree ℝ := { growth, coupling, floor }
  refine ⟨t, by rw [build?, hsome]; rfl, fun delta lam hdelta hlam => ⟨?_, ?_⟩⟩
  · rintro ⟨u, -, hcones⟩
    have hadmits : t.Admits delta lam := admits_of_inCones hgrowth hfloor hdelta hlam hcones
    exact ⟨hadmits.newGrowth_nonneg, hadmits.floor_pow_le⟩
  · rintro ⟨hnonneg, hprod⟩
    refine ⟨t.tightFor delta lam, t.size_tightFor _ _, ?_⟩
    have hcones := inCones_tightFor (t := t) hgrowth hfloor hdelta hlam #[] ⟨hnonneg, hprod⟩
    rwa [Array.append_empty] at hcones

/-- Raising one asset and lowering another keeps the mean; lowering one alone does
not. The three assets leave one leaf to the floor. -/
theorem exists_inCones_three_assets :
    (0 < (#[1, 2, 4] : Column ℝ).size ∧ (0 : ℝ) ≤ 2) ∧
      ∃ t, build? (#[1, 2, 4] : Column ℝ) (1 / 2) 2 = some t ∧
        (∃ u : Column ℝ, u.size = t.inner ∧
          InCones t.inner (t.slack (#[2, 0, 0] ++ #[0, 0, 1] ++ u))) ∧
        ¬ ∃ u : Column ℝ, u.size = t.inner ∧
          InCones t.inner (t.slack (#[0, 0, 0] ++ #[0, 0, 1] ++ u)) := by
  have hsize : 0 < (#[1, 2, 4] : Column ℝ).size := by decide
  refine ⟨⟨hsize, zero_le_two⟩, ?_⟩
  obtain ⟨t, ht, hiff⟩ := exists_inCones_iff #[1, 2, 4] (1 / 2) 2 hsize zero_le_two
  refine ⟨t, ht, (hiff #[2, 0, 0] #[0, 0, 1] rfl rfl).mpr ⟨?_, ?_⟩, fun h => ?_⟩
  · intro i hi
    have hi : i < 3 := hi
    interval_cases i <;> norm_num [Column.coord]
  · norm_num [Column.coord, prod_range_succ]
  · have hprod := ((hiff #[0, 0, 0] #[0, 0, 1] rfl rfl).mp h).2
    norm_num [Column.coord, prod_range_succ] at hprod

end GrowthTree

end Rebalancing
