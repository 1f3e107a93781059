-- SUMMARY: What moving a rolling state on by a trade leads to when the trade and the state need not be about the same assets.
import Mathlib
import Rebalancing.Proofs.RollingState

/-!
# Moves by any trade

Neither a rolling state nor a trade ties its two columns to one length, so a move
meets four lengths. The allocation is replaced before the growth proxy is looked
at, and the length of `λ` is never compared with another one. A move is whole
where these two gaps do not show.
-/

namespace Rebalancing

namespace Trade

variable {F : Type} [Scalar F] (t : Trade F)

/-- A column of the length of `δ` is cut to the length of `λ`, if that is less. -/
theorem size_newAllocation_of_eq {z : Column F} (hz : z.size = t.delta.size) :
    (t.newAllocation z).size = min z.size t.lam.size := by
  rw [newAllocation, Column.size_tabulate, ← hz, min_self]

theorem size_newGrowth_of_eq {growth : Column F} (hgrowth : growth.size = t.delta.size)
    (coupling : F) :
    (t.newGrowth growth coupling).size = min growth.size t.lam.size := by
  rw [newGrowth, Column.size_tabulate, ← hgrowth, min_self]

end Trade

namespace RollingState

variable {F : Type} [Scalar F] (s : RollingState F) (t : Trade F) (coupling : F)

/-! ## Ways in which a move ends -/

/-- The state where a move breaks off after the allocation. -/
def torn : RollingState F := { s with allocation := t.newAllocation s.allocation }

/-- A move ends in one of three ways, told by the lengths that are compared: before
its first change, between its two changes, or completed. -/
inductive Advances : Bool × RollingState F → Prop where
  | refused (hallocation : s.allocation.size ≠ t.delta.size) : Advances (false, s)
  | torn (hallocation : s.allocation.size = t.delta.size)
      (hgrowth : s.growth.size ≠ t.delta.size) : Advances (false, s.torn t)
  | completed (hallocation : s.allocation.size = t.delta.size)
      (hgrowth : s.growth.size = t.delta.size) : Advances (true, s.moved t coupling)

theorem advances_advance : s.Advances t coupling (s.advance t coupling) := by
  by_cases hallocation : s.allocation.size = t.delta.size
  · have hallocation' : t.newAllocation? s.allocation = some (t.newAllocation s.allocation) :=
      if_pos hallocation
    by_cases hgrowth : s.growth.size = t.delta.size
    · have hgrowth' : t.newGrowth? s.growth coupling = some (t.newGrowth s.growth coupling) :=
        if_pos hgrowth
      rw [advance, hallocation']
      simp only [hgrowth']
      exact .completed hallocation hgrowth
    · have hgrowth' : t.newGrowth? s.growth coupling = none := if_neg hgrowth
      rw [advance, hallocation']
      simp only [hgrowth']
      exact .torn hallocation hgrowth
  · have hallocation' : t.newAllocation? s.allocation = none := if_neg hallocation
    rw [advance, hallocation']
    exact .refused hallocation

/-! ## Whole moves -/

/-- The column lengths and the period after a completed move that loses no entry. -/
structure KeepsSizes (s' : RollingState F) : Prop where
  size_allocation : s'.allocation.size = s.allocation.size
  size_growth : s'.growth.size = s.growth.size
  period_eq : s'.period = s.period + 1

/-- All or nothing: the move is completed and loses no entry, or it is not completed and
the state stays. -/
def MovesWhole : Prop :=
  (∃ s', s.advance t coupling = (true, s') ∧ s.KeepsSizes s') ∨
    s.advance t coupling = (false, s)

theorem keepsSizes_moved_iff (hallocation : s.allocation.size = t.delta.size)
    (hgrowth : s.growth.size = t.delta.size) :
    s.KeepsSizes (s.moved t coupling) ↔ t.delta.size ≤ t.lam.size := by
  have hsize : (s.moved t coupling).allocation.size = min t.delta.size t.lam.size :=
    hallocation ▸ t.size_newAllocation_of_eq hallocation
  have hsize' : (s.moved t coupling).growth.size = min t.delta.size t.lam.size :=
    hgrowth ▸ t.size_newGrowth_of_eq hgrowth coupling
  refine ⟨fun h => ?_, fun h => ⟨?_, ?_, rfl⟩⟩
  · exact min_eq_left_iff.mp (hsize.symm.trans (h.size_allocation.trans hallocation))
  · exact hsize.trans ((min_eq_left h).trans hallocation.symm)
  · exact hsize'.trans ((min_eq_left h).trans hgrowth.symm)

theorem movesWhole_iff :
    s.MovesWhole t coupling ↔
      s.allocation.size ≠ t.delta.size ∨
      s.growth.size = t.delta.size ∧ t.delta.size ≤ t.lam.size ∨
      s.growth.size ≠ t.delta.size ∧ t.newAllocation s.allocation = s.allocation := by
  have hadvances := s.advances_advance t coupling
  rw [MovesWhole]
  generalize s.advance t coupling = result at hadvances ⊢
  cases hadvances with
  | refused hallocation => exact iff_of_true (.inr rfl) (.inl hallocation)
  | torn hallocation hgrowth =>
    have htorn : s.torn t = s ↔ t.newAllocation s.allocation = s.allocation :=
      ⟨congrArg RollingState.allocation, fun h => by rw [torn, h]⟩
    simp [hallocation, hgrowth, htorn]
  | completed hallocation hgrowth =>
    simp [hallocation, hgrowth, s.keepsSizes_moved_iff t coupling hallocation hgrowth]

/-- A move by any trade from any state ends in one of three ways. It is all or nothing
where the allocation is not of the length of `δ`; where the growth proxy is too,
as long as `λ` is not shorter; and where the growth proxy is not, as long as the
trade gives the allocation back as it is. -/
theorem advance_outcome :
    s.Advances t coupling (s.advance t coupling) ∧
      (s.MovesWhole t coupling ↔
        s.allocation.size ≠ t.delta.size ∨
        s.growth.size = t.delta.size ∧ t.delta.size ≤ t.lam.size ∨
        s.growth.size ≠ t.delta.size ∧ t.newAllocation s.allocation = s.allocation) :=
  ⟨s.advances_advance t coupling, s.movesWhole_iff t coupling⟩

/-- Selling half of one asset when the growth proxy has two: the move breaks off with the
allocation replaced. And a trade whose `λ` has no entry empties both columns. -/
theorem exists_not_movesWhole :
    ¬ RollingState.MovesWhole (F := ℝ) { allocation := #[1], growth := #[1, 1] }
        { delta := #[1 / 2], lam := #[0] } 1 ∧
      ¬ RollingState.MovesWhole (F := ℝ) { allocation := #[1], growth := #[1] }
        { delta := #[0], lam := #[] } 1 := by
  constructor
  · rw [movesWhole_iff]
    rintro (h | ⟨h, -⟩ | ⟨-, h⟩)
    · exact h rfl
    · cases h
    · have hentry := congrArg (Column.coord · 0) h
      simp only [Trade.newAllocation, Column.coord_tabulate] at hentry
      norm_num [Column.coord] at hentry
  · rw [movesWhole_iff]
    rintro (h | ⟨-, h⟩ | ⟨h, -⟩)
    · exact h rfl
    · exact absurd h (by decide)
    · exact h rfl

end RollingState

end Rebalancing
