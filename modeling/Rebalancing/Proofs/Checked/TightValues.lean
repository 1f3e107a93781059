-- SUMMARY: The tight values of a growth tree computed in place, from the last leaf back to the root: no read or write misses, and what is left is the tight values.
import Mathlib
import Rebalancing.Proofs.Checked.Cells
import Rebalancing.Proofs.GrowthTree.Tight

/-!
# Tight values in place

One column has a place for every node. The leaves are written first, then the inner nodes
from the last one back to the root, each from its two children. A node is read only after
it has been written: when the loop comes to an inner node, every node behind it holds its
tight value, and its children stand behind it.
-/

namespace Rebalancing

namespace GrowthTree

variable {F : Type} [Scalar F]

/-! ## Loops -/

/-- What stands at a leaf: the entry of an asset, or else the padding. -/
def leaf? (t : GrowthTree F) (leaves : Column F) (pad : F) (i : ℕ) : Option F :=
  if i < t.assets then leaves[i]? else some pad

/-- Write a leaf. -/
def putLeaf? (t : GrowthTree F) (leaves : Column F) (pad : F) (val : Column F) (i : ℕ) :
    Option (Column F) := do
  let leaf ← t.leaf? leaves pad i
  Column.put? val (t.inner + i) leaf

/-- Write an inner node from its two children. -/
def putInner? (val : Column F) (k : ℕ) : Option (Column F) := do
  let left ← val[2 * k + 1]?
  let right ← val[2 * k + 2]?
  Column.put? val k (Scalar.sqrt (left * right))

/-- The numbers of the inner nodes, by a loop over the leaves and one back over the inner
nodes; there must be one leaf for every asset. -/
def tightInPlace? (t : GrowthTree F) (leaves : Column F) (pad : F) : Option (Column F) :=
  if leaves.size = t.assets then do
    let val ← (List.range t.leaves).foldlM (t.putLeaf? leaves pad)
      (Column.zeros (t.inner + t.leaves))
    let val ← (List.range t.inner).reverse.foldlM putInner? val
    some (val.extract 0 t.inner)
  else none

/-! ## What the column holds -/

section Loops

variable {t : GrowthTree F} {leaf : ℕ → F} {val : Column F}

/-- The column has a place for every node, and the nodes from `k` on hold their tight
values. -/
structure HoldsFrom (t : GrowthTree F) (leaf : ℕ → F) (k : ℕ) (val : Column F) : Prop where
  size_eq : val.size = t.inner + t.leaves
  coord_eq : ∀ j, k ≤ j → j < t.inner + t.leaves → val.coord j = tightValue t.inner leaf j

/-- The leaves are written in order. -/
theorem exists_putLeaves? {leaves : Column F} {pad : F}
    (hleaf : ∀ i < t.leaves, t.leaf? leaves pad i = some (leaf i)) {m : ℕ} (hm : m ≤ t.leaves) :
    ∃ val, (List.range m).foldlM (t.putLeaf? leaves pad) (Column.zeros (t.inner + t.leaves)) =
        some val ∧
      val.size = t.inner + t.leaves ∧ ∀ i < m, val.coord (t.inner + i) = leaf i := by
  induction m with
  | zero => exact ⟨_, rfl, Column.size_zeros _, fun _ hi => absurd hi (Nat.not_lt_zero _)⟩
  | succ m ih =>
    obtain ⟨val, hval, hsize, hcoord⟩ := ih (Nat.le_of_succ_le hm)
    have hplace : t.inner + m < val.size := by omega
    refine ⟨val.setIfInBounds (t.inner + m) (leaf m), ?_, ?_, fun i hi => ?_⟩
    · rw [Checked.foldlM_range_succ, hval, Option.bind_some, putLeaf?, hleaf m hm]
      exact Column.put?_eq_some hplace _
    · rw [Array.size_setIfInBounds, hsize]
    · rw [Column.coord_setIfInBounds hplace]
      split
      next heq => rw [Nat.add_left_cancel heq]
      next hne => exact hcoord i (by omega)

theorem exists_putLeaves?_holdsFrom {leaves : Column F} {pad : F}
    (hleaf : ∀ i < t.leaves, t.leaf? leaves pad i = some (leaf i)) :
    ∃ val, (List.range t.leaves).foldlM (t.putLeaf? leaves pad)
        (Column.zeros (t.inner + t.leaves)) = some val ∧ t.HoldsFrom leaf t.inner val := by
  obtain ⟨val, hval, hsize, hcoord⟩ := exists_putLeaves? hleaf le_rfl
  refine ⟨val, hval, hsize, fun j hle hj => ?_⟩
  obtain ⟨i, rfl⟩ := Nat.exists_eq_add_of_le hle
  rw [tightValue_leaf, hcoord i (by omega)]

/-- One step back: the children of an inner node stand behind it. -/
theorem HoldsFrom.putInner? {k : ℕ} (h : t.HoldsFrom leaf (k + 1) val) (hk : k < t.inner) :
    ∃ next, GrowthTree.putInner? val k = some next ∧ t.HoldsFrom leaf k next := by
  have hleaves : t.inner + 1 = t.leaves := t.inner_succ
  have hsize := h.size_eq
  have hread : ∀ j, k < j → j < t.inner + t.leaves →
      val[j]? = some (tightValue t.inner leaf j) := by
    intro j hkj hj
    rw [Column.getElem?_eq_some (hsize ▸ hj), h.coord_eq j hkj hj]
  have hplace : k < val.size := by omega
  refine ⟨val.setIfInBounds k (tightValue t.inner leaf k), ?_, ?_, fun j hkj hj => ?_⟩
  · rw [GrowthTree.putInner?, hread _ (by omega) (by omega), hread _ (by omega) (by omega),
      tightValue_of_lt hk]
    exact Column.put?_eq_some hplace _
  · rw [Array.size_setIfInBounds, hsize]
  · rw [Column.coord_setIfInBounds hplace]
    split
    next heq => rw [heq]
    next hne => exact h.coord_eq j (by omega) hj

/-- The loop back over the first `n` inner nodes ends with every node at its tight value. -/
theorem HoldsFrom.exists_putInners? {n : ℕ} (h : t.HoldsFrom leaf n val) (hn : n ≤ t.inner) :
    ∃ last, (List.range n).reverse.foldlM GrowthTree.putInner? val = some last ∧
      t.HoldsFrom leaf 0 last := by
  -- The last of the nodes comes first, so the induction goes on from another column.
  induction n generalizing val with
  | zero => exact ⟨val, rfl, h⟩
  | succ n ih =>
    obtain ⟨next, hnext, hholds⟩ := h.putInner? hn
    obtain ⟨last, hlast, hall⟩ := ih hholds (Nat.le_of_succ_le hn)
    refine ⟨last, ?_, hall⟩
    rw [List.range_succ, List.reverse_append, List.reverse_singleton, List.singleton_append,
      List.foldlM_cons, hnext]
    exact hlast

/-- The places of the inner nodes come first. -/
theorem HoldsFrom.extract_eq (h : t.HoldsFrom leaf 0 val) :
    val.extract 0 t.inner = Column.tabulate t.inner (tightValue t.inner leaf) := by
  have hslice : val.slice 0 t.inner = val.extract 0 t.inner := by
    have hle : 0 + t.inner ≤ val.size := by rw [h.size_eq]; omega
    rw [Column.slice_eq_extract hle, Nat.zero_add]
  rw [← hslice]
  refine Column.ext_coord (by simp) fun k hk => ?_
  rw [Column.size_slice] at hk
  rw [Column.coord_slice _ _ hk, Column.coord_tabulate, if_pos hk, Nat.zero_add,
    h.coord_eq k (Nat.zero_le k) (by omega)]

end Loops

/-- The loops break off exactly where there are no tight values, and otherwise leave
them. -/
theorem tightInPlace?_eq (t : GrowthTree F) (leaves : Column F) (pad : F) :
    t.tightInPlace? leaves pad = t.tight? leaves pad := by
  rw [tightInPlace?, tight?]
  split
  next hsize =>
    have hleaf : ∀ i < t.leaves,
        t.leaf? leaves pad i = some (if i < t.assets then leaves.coord i else pad) := by
      intro i _
      unfold leaf?
      split
      next hi => exact Column.getElem?_eq_some (hsize ▸ hi)
      next => rfl
    obtain ⟨val, hval, hfrom⟩ := exists_putLeaves?_holdsFrom hleaf
    obtain ⟨last, hlast, hall⟩ := hfrom.exists_putInners? le_rfl
    rw [hval]
    simp only [Option.bind_eq_bind, Option.bind_some, hlast, hall.extract_eq]
    rfl
  next => rfl

end GrowthTree

end Rebalancing
