-- SUMMARY: What trades of one size make of allocation and growth, and which of them a rebalance may choose.
import Mathlib
import Rebalancing.Proofs.ExactScalar
import Rebalancing.Trade

/-!
# Trades of one size

The two columns of a trade and the column that it changes have an entry for every
asset. Then the changed column has one too, entry by entry, and every quantity of
the trade is defined.
-/

open Finset

namespace Rebalancing

/-- Both columns of the trade have an entry for every one of the assets. -/
structure Trade.OfSize {F : Type} (t : Trade F) (n : ℕ) : Prop where
  size_delta : t.delta.size = n
  size_lam : t.lam.size = n

namespace Trade.OfSize

variable {F : Type} [Scalar F] {t : Trade F} {n : ℕ} (ht : t.OfSize n) {z growth : Column F}

include ht

theorem size_newAllocation (hz : z.size = n) : (t.newAllocation z).size = n := by
  rw [newAllocation, Column.size_tabulate, hz, ht.size_delta, ht.size_lam, min_self, min_self]

theorem coord_newAllocation (hz : z.size = n) {i : ℕ} (hi : i < n) :
    (t.newAllocation z).coord i = z.coord i - t.delta.coord i + t.lam.coord i := by
  rw [newAllocation, Column.coord_tabulate, hz, ht.size_delta, ht.size_lam, min_self, min_self,
    if_pos hi]

theorem size_newGrowth (hgrowth : growth.size = n) (coupling : F) :
    (t.newGrowth growth coupling).size = n := by
  rw [newGrowth, Column.size_tabulate, hgrowth, ht.size_delta, ht.size_lam, min_self, min_self]

theorem coord_newGrowth (hgrowth : growth.size = n) (coupling : F) {i : ℕ} (hi : i < n) :
    (t.newGrowth growth coupling).coord i =
      growth.coord i + coupling * t.delta.coord i - t.lam.coord i := by
  rw [newGrowth, Column.coord_tabulate, hgrowth, ht.size_delta, ht.size_lam, min_self, min_self,
    if_pos hi]

theorem newAllocation?_eq_some (hz : z.size = n) :
    t.newAllocation? z = some (t.newAllocation z) := by
  rw [newAllocation?, hz, ht.size_delta, if_pos rfl]

theorem newGrowth?_eq_some (hgrowth : growth.size = n) (coupling : F) :
    t.newGrowth? growth coupling = some (t.newGrowth growth coupling) := by
  rw [newGrowth?, hgrowth, ht.size_delta, if_pos rfl]

end Trade.OfSize

/-! ## Admissible trades -/

/-- The trades among which a rebalance chooses: nothing is taken or added below
zero, and the growth proxy is not below zero and keeps its product. -/
structure Inputs.Admits (inp : Inputs ℝ) (t : Trade ℝ) : Prop where
  delta_nonneg : ∀ i < inp.assets, 0 ≤ t.delta.coord i
  lam_nonneg : ∀ i < inp.assets, 0 ≤ t.lam.coord i
  newGrowth_nonneg : ∀ i < inp.assets,
    0 ≤ inp.growth.coord i + inp.coupling * t.delta.coord i - t.lam.coord i
  prod_le : ∏ i ∈ range inp.assets, inp.growth.coord i ≤
    ∏ i ∈ range inp.assets, (inp.growth.coord i + inp.coupling * t.delta.coord i - t.lam.coord i)

end Rebalancing
