-- SUMMARY: Products over the levels of a binary tree numbered as a heap, and what bounds between a node and its children say of the root and the leaves.
import Mathlib
import Rebalancing.GrowthTree

/-!
# Level products

Level `d` of a heap holds the `2 ^ d` nodes from `2 ^ d - 1` on. When the square
of every inner node is at most the product of its children, the square of the
product over a level is at most the product over the next. So the root, raised
to the number of leaves, is at most the product of the leaves.
-/

open Finset

namespace Rebalancing

/-- A product over `2 m` factors, taken in pairs. -/
theorem prod_range_two_mul (m : ℕ) (f : ℕ → ℝ) :
    ∏ i ∈ range (2 * m), f i = ∏ i ∈ range m, f (2 * i) * f (2 * i + 1) := by
  induction m with
  | zero => simp
  | succ m ih =>
    rw [Nat.mul_succ, prod_range_succ, prod_range_succ, prod_range_succ, ih, mul_assoc]

namespace GrowthTree

/-- The product of the values on level `d`. -/
def levelProduct (val : ℕ → ℝ) (d : ℕ) : ℝ := ∏ i ∈ range (2 ^ d), val (2 ^ d - 1 + i)

@[simp] theorem levelProduct_zero (val : ℕ → ℝ) : levelProduct val 0 = val 0 := by
  simp [levelProduct]

/-- A level holds the children of the level above it. -/
theorem levelProduct_succ (val : ℕ → ℝ) (d : ℕ) :
    levelProduct val (d + 1) = ∏ i ∈ range (2 ^ d),
      val (2 * (2 ^ d - 1 + i) + 1) * val (2 * (2 ^ d - 1 + i) + 2) := by
  have hpos : 0 < 2 ^ d := Nat.two_pow_pos d
  rw [levelProduct, pow_succ', prod_range_two_mul]
  apply prod_congr rfl
  intro i _
  congr 2 <;> omega

/-- Nodes on a level above the leaves are inner nodes. -/
theorem level_lt_inner {D d i : ℕ} (hd : d < D) (hi : i < 2 ^ d) : 2 ^ d - 1 + i < 2 ^ D - 1 := by
  have hle : 2 ^ (d + 1) ≤ 2 ^ D := Nat.pow_le_pow_right (by norm_num) hd
  rw [pow_succ] at hle
  omega

section Root

variable {val : ℕ → ℝ} {D : ℕ}

theorem levelProduct_sq_le
    (hle : ∀ j < 2 ^ D - 1, val j ^ 2 ≤ val (2 * j + 1) * val (2 * j + 2)) {d : ℕ} (hd : d < D) :
    levelProduct val d ^ 2 ≤ levelProduct val (d + 1) := by
  rw [levelProduct_succ, levelProduct, ← prod_pow]
  apply prod_le_prod (fun i _ => sq_nonneg _)
  intro i hi
  exact hle _ (level_lt_inner hd (mem_range.mp hi))

/-- The root is at most the geometric mean of the leaves. -/
theorem root_pow_le_levelProduct (hroot : 0 ≤ val 0)
    (hle : ∀ j < 2 ^ D - 1, val j ^ 2 ≤ val (2 * j + 1) * val (2 * j + 2)) :
    val 0 ^ 2 ^ D ≤ levelProduct val D := by
  -- The levels above the leaves are bounded one after the other, down to the leaves.
  suffices h : ∀ d ≤ D, val 0 ^ 2 ^ d ≤ levelProduct val d from h D le_rfl
  intro d
  induction d with
  | zero => simp
  | succ d ih =>
    intro hd
    calc val 0 ^ 2 ^ (d + 1) = (val 0 ^ 2 ^ d) ^ 2 := by rw [pow_succ, pow_mul]
      _ ≤ levelProduct val d ^ 2 := pow_le_pow_left₀ (by positivity) (ih (by omega)) 2
      _ ≤ levelProduct val (d + 1) := levelProduct_sq_le hle hd

/-- If every inner node is the geometric mean of its children, the root is the
geometric mean of the leaves. -/
theorem root_pow_eq_levelProduct
    (heq : ∀ j < 2 ^ D - 1, val j ^ 2 = val (2 * j + 1) * val (2 * j + 2)) :
    val 0 ^ 2 ^ D = levelProduct val D := by
  suffices h : ∀ d ≤ D, val 0 ^ 2 ^ d = levelProduct val d from h D le_rfl
  intro d
  induction d with
  | zero => simp
  | succ d ih =>
    intro hd
    rw [pow_succ, pow_mul, ih (by omega), levelProduct_succ, levelProduct, ← prod_pow]
    exact prod_congr rfl fun i hi => heq _ (level_lt_inner hd (mem_range.mp hi))

end Root

/-- The product over the leaves, when those beyond the first `n` hold a constant. -/
theorem levelProduct_padded {val leaf : ℕ → ℝ} {pad : ℝ} {n D : ℕ} (hn : n ≤ 2 ^ D)
    (hleaf : ∀ i < n, val (2 ^ D - 1 + i) = leaf i)
    (hpad : ∀ i, n ≤ i → i < 2 ^ D → val (2 ^ D - 1 + i) = pad) :
    levelProduct val D = (∏ i ∈ range n, leaf i) * pad ^ (2 ^ D - n) := by
  -- `m` leaves of padding stand beyond the first `n`.
  obtain ⟨m, hm⟩ := Nat.exists_eq_add_of_le hn
  rw [levelProduct, prod_congr (congrArg range hm) fun _ _ => rfl, prod_range_add]
  congr 1
  · exact prod_congr rfl fun i hi => hleaf i (mem_range.mp hi)
  · rw [prod_congr rfl fun i hi => hpad (n + i) (by omega) (by have := mem_range.mp hi; omega),
      prod_const, card_range, hm, Nat.add_sub_cancel_left]

end GrowthTree

end Rebalancing
