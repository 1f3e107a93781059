-- SUMMARY: The nearest points of product cones: members whose residual lies in the cone as well and stands at a right angle to them.
import Mathlib
import Rebalancing.Conic.FirstOrder
import Rebalancing.Proofs.Conic.Blocks

/-!
# Nearest points of product cones

A point of a cone is the nearest one to a column when what it adds to the column lies in
the cone too and has no product with it. The nearest points of the quadratic cone are
read off their three cases. Turning the first two axes carries them over to the rotated
cone, and blocks that follow each other carry them over to product cones.
-/

open Finset

namespace Rebalancing

/-! ## Sizes -/

namespace Column

section Sizes

variable {F : Type} [Scalar F]

@[simp] theorem size_turn (x : Column F) : x.turn.size = x.size := size_tabulate _ _

@[simp] theorem size_nearestQuadratic (x : Column F) : x.nearestQuadratic.size = x.size := by
  simp only [nearestQuadratic]
  split
  · exact size_tabulate _ _
  · split
    · rfl
    · exact size_tabulate _ _

@[simp] theorem size_nearestRotated (x : Column F) : x.nearestRotated.size = x.size := by
  unfold nearestRotated
  split
  · rfl
  · exact Array.size_map
  · rw [size_turn, size_nearestQuadratic, size_turn]

end Sizes

/-! ## Differences -/

section Zipped

variable {x y : Column ℝ} {f : ℝ → ℝ → ℝ} (hf : f 0 0 = 0) (h : y.size = x.size)

include hf h

/-- Columns of one size joined entry by entry; beyond their end all of them read zero. -/
theorem coord_zip (i : ℕ) : coord (FirstOrder.zip f x y) i = f (x.coord i) (y.coord i) := by
  rw [FirstOrder.zip, coord_tabulate]
  split
  · rfl
  · rw [coord_of_size_le (by omega), coord_of_size_le (by omega), hf]

theorem on_zip (g : Stretch) :
    on (FirstOrder.zip f x y) g = FirstOrder.zip f (x.on g) (y.on g) := by
  apply ext_coord (by simp [FirstOrder.zip])
  intro i hi
  rw [size_on] at hi
  rw [coord_zip hf (by simp), on, on, on, coord_slice _ _ hi, coord_slice _ _ hi,
    coord_slice _ _ hi, coord_zip hf h]

end Zipped

/-- The difference of two columns of one size. -/
noncomputable def minus (x y : Column ℝ) : Column ℝ := FirstOrder.zip (· - ·) x y

variable {x y p : Column ℝ}

@[simp] theorem size_minus (x y : Column ℝ) : (x.minus y).size = x.size := size_tabulate _ _

theorem coord_minus (h : y.size = x.size) (i : ℕ) :
    (x.minus y).coord i = x.coord i - y.coord i :=
  coord_zip (sub_zero 0) h i

theorem on_minus (h : y.size = x.size) (g : Stretch) :
    (x.minus y).on g = (x.on g).minus (y.on g) :=
  on_zip (sub_zero 0) h g

theorem norm_real (x : Column ℝ) : x.norm = √(x.product x 0 x.size) := by
  simp [norm, product, sumTo_real]

/-- How far two columns of one size are apart. -/
noncomputable def distance (x y : Column ℝ) : ℝ := (x.minus y).norm

/-- `p` is a column of a set, and all others of the set are farther from `x`. -/
def NearestIn (C : Column ℝ → Prop) (x p : Column ℝ) : Prop :=
  C p ∧ ∀ q, C q → q ≠ p → x.distance p < x.distance q

/-- There is no second column that all others are farther away than. -/
theorem NearestIn.unique {C : Column ℝ → Prop} {q : Column ℝ} (hp : NearestIn C x p)
    (hq : NearestIn C x q) : p = q := by
  by_contra hne
  exact lt_asymm (hp.2 q hq.1 (Ne.symm hne)) (hq.2 p hp.1 hne)

/-! ## Splitting a column -/

/-- `p` lies in a set, what it adds to `x` does as well, and has no product with it. -/
structure Splits (C : Column ℝ → Prop) (x p : Column ℝ) : Prop where
  size_eq : p.size = x.size
  mem : C p
  residual : C (p.minus x)
  orthogonal : (x.minus p).product p 0 x.size = 0

/-! ## The quadratic cone -/

/-- The first entry is at least the length of the others. -/
def InQuadratic (x : Column ℝ) : Prop :=
  0 ≤ x.coord 0 ∧ ∑ i ∈ range (x.size - 1), x.coord (i + 1) ^ 2 ≤ x.coord 0 ^ 2

section Scaled

variable {n : ℕ} {a c len : ℝ} (hx : x.size = n + 1)
  (hlen : ∑ i ∈ range n, x.coord (i + 1) ^ 2 = len ^ 2)

include hx hlen

/-- A column with a new first entry `a` and the others scaled by `c` splits as far as some
numbers compare. -/
theorem splits_of_scaled (hp : p.size = x.size) (hfirst : p.coord 0 = a)
    (hrest : ∀ i < n, p.coord (i + 1) = c * x.coord (i + 1)) (ha : 0 ≤ a)
    (hmem : (c * len) ^ 2 ≤ a ^ 2) (hle : x.coord 0 ≤ a)
    (hresidual : ((1 - c) * len) ^ 2 ≤ (a - x.coord 0) ^ 2)
    (horthogonal : (x.coord 0 - a) * a + (1 - c) * len * (c * len) = 0) :
    Splits InQuadratic x p where
  size_eq := hp
  mem := by
    have hsum : ∑ i ∈ range n, p.coord (i + 1) ^ 2 = (c * len) ^ 2 := by
      rw [mul_pow, ← hlen, mul_sum]
      exact sum_congr rfl fun i hi => by rw [hrest i (mem_range.mp hi), mul_pow]
    rw [InQuadratic, hfirst, hp, hx, Nat.add_sub_cancel, hsum]
    exact ⟨ha, hmem⟩
  residual := by
    have hsum : ∑ i ∈ range n, (p.minus x).coord (i + 1) ^ 2 = ((1 - c) * len) ^ 2 := by
      rw [mul_pow, ← hlen, mul_sum]
      refine sum_congr rfl fun i hi => ?_
      rw [coord_minus hp.symm, hrest i (mem_range.mp hi)]
      ring
    rw [InQuadratic, size_minus, hp, hx, Nat.add_sub_cancel, hsum, coord_minus hp.symm, hfirst]
    exact ⟨sub_nonneg.mpr hle, hresidual⟩
  orthogonal := by
    have hsum : ∑ i ∈ range n, (x.minus p).coord (i + 1) * p.coord (i + 1) =
        (1 - c) * len * (c * len) := by
      rw [mul_mul_mul_comm, ← sq len, ← hlen, mul_sum]
      refine sum_congr rfl fun i hi => ?_
      rw [coord_minus hp, hrest i (mem_range.mp hi)]
      ring
    simp only [product, Nat.zero_add]
    rw [hx, sum_range_succ', hsum, coord_minus hp, hfirst, add_comm]
    exact horthogonal

/-- The first entry outweighs the others in neither direction: half of what it lacks is
added to it and taken from the others. -/
theorem splits_of_shrunk (hpos : 0 < len) (hback : -len ≤ x.coord 0) (hout : x.coord 0 ≤ len)
    (hp : p.size = x.size) (hfirst : p.coord 0 = (len + x.coord 0) / 2)
    (hrest : ∀ i < n, p.coord (i + 1) = (1 + x.coord 0 / len) / 2 * x.coord (i + 1)) :
    Splits InQuadratic x p := by
  have hkept : (1 + x.coord 0 / len) / 2 * len = (len + x.coord 0) / 2 := by field_simp
  have htaken : (1 - (1 + x.coord 0 / len) / 2) * len = (len + x.coord 0) / 2 - x.coord 0 := by
    rw [sub_mul, hkept]
    ring
  refine splits_of_scaled hx hlen hp hfirst hrest (by linarith) (by rw [hkept]) (by linarith)
    (by rw [htaken]) ?_
  rw [hkept, htaken]
  ring

end Scaled

theorem splits_nearestQuadratic (hx : 0 < x.size) : Splits InQuadratic x x.nearestQuadratic := by
  obtain ⟨n, hn⟩ := Nat.exists_eq_succ_of_ne_zero hx.ne'
  obtain ⟨len, hnonneg, hlen⟩ : ∃ len, 0 ≤ len ∧ ∑ i ∈ range n, x.coord (i + 1) ^ 2 = len ^ 2 :=
    ⟨_, Real.sqrt_nonneg _, (Real.sq_sqrt (sum_nonneg fun i _ => sq_nonneg _)).symm⟩
  have hroot : √(sumTo (x.size - 1) fun i => x.coord (i + 1) * x.coord (i + 1)) = len := by
    simp only [sumTo_real, hn, Nat.succ_sub_one, ← sq, hlen, Real.sqrt_sq hnonneg]
  have hcoord : ∀ f : ℕ → ℝ, ∀ i ≤ n, (tabulate x.size f).coord i = f i := by
    intro f i hi
    rw [coord_tabulate, if_pos (by omega)]
  simp only [nearestQuadratic, Scalar.sqrt_real, hroot, Scalar.two_real]
  split
  next haway =>
    -- Nothing but the tip is left of a column that points away from the cone.
    have hrest : ∀ i < n,
        (tabulate x.size fun i => if i = 0 then 0 else 0 * x.coord i).coord (i + 1) =
          0 * x.coord (i + 1) := fun i hi => hcoord _ (i + 1) hi
    have hback : len ^ 2 ≤ (0 - x.coord 0) ^ 2 :=
      pow_le_pow_left₀ hnonneg (by linarith) 2
    refine splits_of_scaled (a := 0) hn hlen (size_tabulate _ _) (hcoord _ 0 n.zero_le) hrest le_rfl
      (by simp) (by linarith) (by simpa using hback) (by ring)
  next haway =>
    split
    next hinside =>
      have hfirst : len ^ 2 ≤ x.coord 0 ^ 2 := pow_le_pow_left₀ hnonneg hinside 2
      exact splits_of_scaled hn hlen rfl rfl (fun i _ => (one_mul _).symm) (hnonneg.trans hinside)
        (by simpa using hfirst) le_rfl (by simp) (by ring)
    next hinside =>
      refine splits_of_shrunk hn hlen (by linarith) (by linarith) (by linarith) (size_tabulate _ _)
        (hcoord _ 0 n.zero_le) fun i hi => hcoord _ (i + 1) hi

/-! ## The rotated cone -/

section Turn

variable {n : ℕ}

theorem coord_turn_zero (hx : x.size = n + 2) :
    x.turn.coord 0 = (x.coord 0 + x.coord 1) / √2 := by
  simp [turn, coord_tabulate, hx]

theorem coord_turn_one (hx : x.size = n + 2) :
    x.turn.coord 1 = (x.coord 0 - x.coord 1) / √2 := by
  simp [turn, coord_tabulate, hx]

theorem coord_turn_rest (x : Column ℝ) (i : ℕ) : x.turn.coord (i + 2) = x.coord (i + 2) := by
  rw [turn, coord_tabulate]
  split
  · rfl
  · rw [coord_of_size_le (by omega)]

/-- Turned twice, the axes are back in their places. -/
theorem turn_turn (hx : x.size = n + 2) : x.turn.turn = x := by
  have hturn : x.turn.size = n + 2 := x.size_turn.trans hx
  have hroot : √2 * √2 = 2 := Real.mul_self_sqrt zero_le_two
  apply ext_coord (by simp)
  intro i _
  match i with
  | 0 =>
    rw [coord_turn_zero hturn, coord_turn_zero hx, coord_turn_one hx, ← add_div, div_div, hroot]
    ring
  | 1 =>
    rw [coord_turn_one hturn, coord_turn_zero hx, coord_turn_one hx, ← sub_div, div_div, hroot]
    ring
  | i + 2 => rw [coord_turn_rest, coord_turn_rest]

theorem turn_minus (hx : x.size = n + 2) (h : y.size = x.size) :
    (x.minus y).turn = x.turn.minus y.turn := by
  have hy : y.size = n + 2 := h.trans hx
  have hminus : (x.minus y).size = n + 2 := (size_minus x y).trans hx
  have hcoord := coord_minus (x := x.turn) (y := y.turn) (by simp [h])
  apply ext_coord (by simp)
  intro i _
  rw [hcoord]
  match i with
  | 0 =>
    rw [coord_turn_zero hminus, coord_turn_zero hx, coord_turn_zero hy]
    rw [coord_minus h, coord_minus h]
    ring
  | 1 =>
    rw [coord_turn_one hminus, coord_turn_one hx, coord_turn_one hy]
    rw [coord_minus h, coord_minus h]
    ring
  | i + 2 => rw [coord_turn_rest, coord_turn_rest, coord_turn_rest, coord_minus h]

/-- A turn keeps products. -/
theorem product_turn (hx : x.size = n + 2) (hy : y.size = n + 2) :
    x.turn.product y.turn 0 (n + 2) = x.product y 0 (n + 2) := by
  have hroot : √2 * √2 = 2 := Real.mul_self_sqrt zero_le_two
  rw [product_two_add, product_two_add, coord_turn_zero hx, coord_turn_zero hy, coord_turn_one hx,
    coord_turn_one hy, div_mul_div_comm, div_mul_div_comm, hroot]
  simp only [coord_turn_rest]
  ring

theorem nonneg_of_add_of_mul {a b : ℝ} (hadd : 0 ≤ a + b) (hmul : 0 ≤ a * b) : 0 ≤ a := by
  rcases mul_nonneg_iff.mp hmul with h | h
  · exact h.1
  · linarith

/-- A turn carries the rotated cone over to the quadratic one. -/
theorem inQuadratic_turn_iff (hx : x.size = n + 2) : x.turn.InQuadratic ↔ x.InRotated := by
  have hroot : √2 ^ 2 = (2 : ℝ) := Real.sq_sqrt zero_le_two
  have hpos : (0 : ℝ) < √2 := by positivity
  rw [InQuadratic, inRotated_iff hx, size_turn, hx, show n + 2 - 1 = n + 1 from rfl,
    sum_range_succ', coord_turn_zero hx, Nat.zero_add, coord_turn_one hx, le_div_iff₀ hpos,
    zero_mul, div_pow, div_pow, hroot]
  simp only [coord_turn_rest]
  constructor
  · rintro ⟨hadd, hlen⟩
    have hrest : 0 ≤ ∑ i ∈ range n, x.coord (i + 2) ^ 2 := sum_nonneg fun _ _ => sq_nonneg _
    have hmul : 0 ≤ x.coord 0 * x.coord 1 := by linarith
    exact ⟨nonneg_of_add_of_mul hadd hmul,
      nonneg_of_add_of_mul (add_comm (x.coord 0) _ ▸ hadd) (mul_comm (x.coord 0) _ ▸ hmul),
      by linarith⟩
  · rintro ⟨h0, h1, hlen⟩
    exact ⟨add_nonneg h0 h1, by linarith⟩

end Turn

/-- Turning the axes carries over what splits a column. -/
theorem Splits.turn {n : ℕ} (hx : x.size = n + 2) (h : Splits InQuadratic x.turn p) :
    Splits InRotated x p.turn := by
  have hp : p.size = n + 2 := by rw [h.size_eq, size_turn, hx]
  have hback : p.turn.turn = p := turn_turn hp
  have hpturn : p.turn.size = n + 2 := by rw [size_turn, hp]
  have hsize : p.turn.size = x.size := hpturn.trans hx.symm
  refine ⟨hsize, ?_, ?_, ?_⟩
  · rw [← inQuadratic_turn_iff hpturn, hback]
    exact h.mem
  · rw [← inQuadratic_turn_iff ((size_minus _ _).trans hpturn), turn_minus hpturn hsize.symm, hback]
    exact h.residual
  · rw [hx, ← product_turn ((size_minus _ _).trans hx) hpturn, turn_minus hx hsize, hback, ← hx,
      ← x.size_turn]
    exact h.orthogonal

/-- The nearest number that is not below zero splits a number. -/
theorem split_max (a : ℝ) : 0 ≤ max a 0 ∧ 0 ≤ max a 0 - a ∧ (a - max a 0) * max a 0 = 0 := by
  refine ⟨le_max_right a 0, sub_nonneg.mpr (le_max_left a 0), ?_⟩
  rcases max_choice a 0 with h | h <;> simp [h]

theorem splits_nearestRotated (x : Column ℝ) : Splits InRotated x x.nearestRotated := by
  unfold nearestRotated
  split
  next hx =>
    have hnone : ∀ y : Column ℝ, y.size = 0 → y.InRotated := by
      intro y hy
      rw [InRotated, hy]
      trivial
    exact ⟨rfl, hnone x hx, hnone _ ((size_minus _ _).trans hx), by rw [hx]; rfl⟩
  next hx =>
    have hhalf : ∀ y : Column ℝ, y.size = 1 → 0 ≤ y.coord 0 → y.InRotated := by
      intro y hy h
      rwa [InRotated, hy]
    have hp : (x.map fun e => Scalar.max e 0).size = x.size := Array.size_map
    have hcoord : coord (x.map fun e => Scalar.max e 0) 0 = max (x.coord 0) 0 := by
      rw [coord_map _ (by omega), Scalar.max_real]
    obtain ⟨hmem, hresidual, horthogonal⟩ := split_max (x.coord 0)
    refine ⟨hp, hhalf _ (hp.trans hx) (hcoord ▸ hmem),
      hhalf _ ((size_minus _ _).trans (hp.trans hx)) ?_, ?_⟩
    · rwa [coord_minus hp.symm, hcoord]
    · rwa [hx, product, sum_range_one, coord_minus hp, Nat.zero_add, hcoord]
  next hzero hone =>
    obtain ⟨n, hn⟩ := Nat.exists_eq_add_of_le' ((Nat.two_le_iff _).mpr ⟨hzero, hone⟩)
    exact (splits_nearestQuadratic (by rw [size_turn]; omega)).turn hn

end Column

/-! ## Product cones -/

namespace ProductCone

open Column

variable {k : ProductCone} {x p : Column ℝ}

/-- Blocks and entries that split give a column that splits. -/
theorem Blockwise.splits (hx : x.size = k.dim)
    (h : k.Blockwise nearestRotated (fun e => Scalar.max e 0) x p) : Splits k.Contains x p := by
  have hp : p.size = x.size := h.size_eq
  have hblock : ∀ g ∈ k.groups, Splits InRotated (x.on g) (p.on g) := by
    intro g hg
    rw [h.block g hg]
    exact splits_nearestRotated _
  have hentry : ∀ i < k.orthant,
      p.coord (k.rotated.sum + i) = max (x.coord (k.rotated.sum + i)) 0 := by
    intro i hi
    rw [h.entry i hi, Scalar.max_real]
  refine ⟨hp, ?_, ?_, ?_⟩
  · refine (contains_iff (hp.trans hx)).mpr ⟨fun g hg => (hblock g hg).mem, fun i hi => ?_⟩
    rw [hentry i hi]
    exact (split_max _).1
  · have hsize : (p.minus x).size = k.dim := (size_minus _ _).trans (hp.trans hx)
    refine (contains_iff hsize).mpr ⟨fun g hg => ?_, fun i hi => ?_⟩
    · rw [on_minus hp.symm]
      exact (hblock g hg).residual
    · rw [coord_minus hp.symm, hentry i hi]
      exact (split_max _).2.1
  · rw [hx, dim_eq]
    refine product_eq_zero_of_blocks (fun g hg => ?_) fun i hi => ?_
    · rw [on_minus hp, ← size_on x g]
      exact (hblock g hg).orthogonal
    · rw [Nat.zero_add, coord_minus hp, hentry i hi]
      exact (split_max _).2.2

/-- A column of the size of the cone has a nearest point that splits it. -/
theorem exists_splits_nearest (hx : x.size = k.dim) :
    ∃ p, k.nearest? x = some p ∧ Splits k.Contains x p :=
  ⟨_, if_pos hx.ge, (blockwise_mapBlocks size_nearestRotated _ hx.ge).splits hx⟩

/-! ## What splits a column is nearest to it -/

/-- The square of the distance to any column, by way of a third one. -/
theorem product_minus_self {q : Column ℝ} {n : ℕ} (hp : p.size = x.size) (hq : q.size = x.size) :
    (x.minus q).product (x.minus q) 0 n =
      (x.minus p).product (x.minus p) 0 n +
        2 * ((x.minus p).product p 0 n + (p.minus x).product q 0 n) +
        (p.minus q).product (p.minus q) 0 n := by
  simp only [product, mul_add, mul_sum, ← sum_add_distrib]
  refine sum_congr rfl fun i _ => ?_
  rw [coord_minus hp, coord_minus hq, coord_minus hp.symm, coord_minus (hq.trans hp.symm)]
  ring

/-- A column that is not another one has a positive product with itself. -/
theorem product_minus_self_pos {q : Column ℝ} (hsize : q.size = p.size) (hne : q ≠ p) :
    0 < (p.minus q).product (p.minus q) 0 p.size := by
  refine lt_of_le_of_ne (sum_nonneg fun i _ => mul_self_nonneg _) fun hzero => hne ?_
  refine ext_coord hsize fun i hi => ?_
  have hentry := (sum_eq_zero_iff_of_nonneg fun i _ => mul_self_nonneg _).mp hzero.symm i
    (mem_range.mpr (hsize ▸ hi))
  rw [mul_self_eq_zero, Nat.zero_add, coord_minus hsize] at hentry
  linarith

variable (h : Splits k.Contains x p)

include h

theorem nearestIn_of_splits : NearestIn k.Contains x p := by
  refine ⟨h.mem, fun q hq hne => ?_⟩
  have hp := h.size_eq
  have hq' : q.size = p.size := hq.1.trans h.mem.1.symm
  have hpos := product_minus_self_pos hq' hne
  have hproduct : 0 ≤ (p.minus x).product q 0 x.size := by
    rw [← hp, h.mem.1]
    exact h.residual.2.product_nonneg hq.2
  rw [hp] at hpos
  rw [distance, distance, norm_real, norm_real, size_minus, size_minus]
  refine Real.sqrt_lt_sqrt (sum_nonneg fun i _ => mul_self_nonneg _) ?_
  rw [product_minus_self hp (hq'.trans hp), h.orthogonal]
  linarith

/-- A column stays as it is just when it lies in the cone. -/
theorem eq_iff_contains_of_splits : p = x ↔ k.Contains x := by
  refine ⟨fun heq => heq ▸ h.mem, fun hx => ?_⟩
  by_contra hne
  have hfar := (nearestIn_of_splits h).2 x hx (Ne.symm hne)
  have hself : x.distance x = 0 := by
    rw [distance, norm_real, product_of_coord_eq_zero fun i _ => ?_, Real.sqrt_zero]
    rw [coord_minus rfl, sub_self]
  rw [hself] at hfar
  exact absurd hfar (not_lt.mpr (Real.sqrt_nonneg _))

end ProductCone

end Rebalancing
