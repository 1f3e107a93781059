-- SUMMARY: Product cones of rotated quadratic cones and an orthant are their own duals, and so closed under combinations and directions.
import Mathlib
import Rebalancing.Proofs.Conic.Membership

/-!
# Duality of product cones

The dual of a cone holds the columns whose product with every column of the cone is
not below zero. A rotated quadratic cone is its own dual, and with it every product
of such cones and an orthant. So a product cone is known by inequalities that are
linear in its columns. It holds every combination of its columns with factors that
are not below zero, and every direction along which it is never left.
-/

open Finset

namespace Rebalancing

/-! ## Products of columns -/

namespace Column

/-- The product of two columns over the `n` entries from `start` on. -/
noncomputable def product (x y : Column ℝ) (start n : ℕ) : ℝ :=
  ∑ i ∈ range n, x.coord (start + i) * y.coord (start + i)

section Product

variable {x x' y y' : Column ℝ} {start n : ℕ}

theorem product_add (x y : Column ℝ) (start m n : ℕ) :
    x.product y start (m + n) = x.product y start m + x.product y (start + m) n := by
  simp only [product, sum_range_add, Nat.add_assoc]

theorem product_congr (hx : ∀ i < n, x.coord (start + i) = x'.coord (start + i))
    (hy : ∀ i < n, y.coord (start + i) = y'.coord (start + i)) :
    x.product y start n = x'.product y' start n := by
  apply sum_congr rfl
  intro i hi
  rw [hx i (mem_range.mp hi), hy i (mem_range.mp hi)]

theorem product_slice (x y : Column ℝ) (start n : ℕ) :
    (x.slice start n).product (y.slice start n) 0 n = x.product y start n := by
  apply sum_congr rfl
  intro i hi
  rw [Nat.zero_add, x.coord_slice start (mem_range.mp hi), y.coord_slice start (mem_range.mp hi)]

theorem product_of_coord_eq_zero (h : ∀ i < n, x.coord (start + i) = 0) :
    x.product y start n = 0 := by
  apply sum_eq_zero
  intro i hi
  rw [h i (mem_range.mp hi), zero_mul]

/-- A product from the first entry on, the first two entries apart. -/
theorem product_two_add (x y : Column ℝ) (n : ℕ) :
    x.product y 0 (n + 2) = x.coord 0 * y.coord 0 + x.coord 1 * y.coord 1 +
      ∑ i ∈ range n, x.coord (i + 2) * y.coord (i + 2) := by
  simp only [product, Nat.zero_add, sum_range_succ']
  ring

/-- A column put behind zeros. -/
theorem coord_zeros_append (v : Column ℝ) (start i : ℕ) :
    (zeros start ++ v).coord (start + i) = v.coord i := by
  rw [coord_append, size_zeros, if_neg (by omega), Nat.add_sub_cancel_left]

theorem coord_zeros_append_of_lt (v : Column ℝ) {start i : ℕ} (hi : i < start) :
    (zeros start ++ v).coord i = 0 := by
  rw [coord_append, size_zeros, if_pos hi, coord_zeros]

theorem slice_zeros_append {v : Column ℝ} (hv : v.size = n) (start : ℕ) :
    (zeros start ++ v).slice start n = v := by
  apply ext_coord ((size_slice _ _ _).trans hv.symm)
  intro i hi
  rw [size_slice] at hi
  rw [coord_slice _ _ hi, coord_zeros_append]

/-- What has products not below zero with a whole orthant lies in it. -/
theorem coord_nonneg_of_product_nonneg
    (h : ∀ x : Column ℝ, (∀ i < n, 0 ≤ x.coord (start + i)) → 0 ≤ x.product y start n) :
    ∀ i < n, 0 ≤ y.coord (start + i) := by
  intro i hi
  -- The column that is one at the entry and zero elsewhere.
  let unit : Column ℝ := zeros start ++ tabulate n fun j => if j = i then 1 else 0
  have hunit : ∀ j < n, unit.coord (start + j) = if j = i then 1 else 0 := by
    intro j hj
    rw [coord_zeros_append, coord_tabulate, if_pos hj]
  have hmem : ∀ j < n, 0 ≤ unit.coord (start + j) := by
    intro j hj
    rw [hunit j hj]
    positivity
  have hentry := h unit hmem
  rw [product, sum_congr rfl fun j hj => by rw [hunit j (mem_range.mp hj)]] at hentry
  simpa [hi] using hentry

end Product

/-! ## Rotated cones -/

section Rotated

variable {x y : Column ℝ} {n : ℕ}

/-- The zero column lies in every rotated cone. -/
theorem inRotated_of_coord_eq_zero (h : ∀ i < x.size, x.coord i = 0) : x.InRotated := by
  have hzero : ∀ i, x.coord i = 0 := by
    intro i
    rcases lt_or_ge i x.size with hi | hi
    · exact h i hi
    · exact coord_of_size_le hi
  unfold InRotated
  split
  · trivial
  · rw [hzero]
  · simp [hzero]

/-- Two columns of a rotated cone have a product that is not below zero. -/
theorem InRotated.product_nonneg (hx : x.InRotated) (hy : y.InRotated) (hsize : x.size = n)
    (hsize' : y.size = n) : 0 ≤ x.product y 0 n := by
  match n with
  | 0 => exact (sum_range_zero _).ge
  | 1 =>
    rw [InRotated, hsize] at hx
    rw [InRotated, hsize'] at hy
    rw [product, sum_range_one]
    exact mul_nonneg hx hy
  | n + 2 =>
    obtain ⟨hx0, hx1, hx⟩ := (inRotated_iff hsize).mp hx
    obtain ⟨hy0, hy1, hy⟩ := (inRotated_iff hsize').mp hy
    have hmain : 0 ≤ x.coord 0 * y.coord 0 + x.coord 1 * y.coord 1 := by positivity
    -- What the other entries take away is bounded by what the first two give.
    have hrest : (∑ i ∈ range n, x.coord (i + 2) * y.coord (i + 2)) ^ 2 ≤
        (x.coord 0 * y.coord 0 + x.coord 1 * y.coord 1) ^ 2 := by
      calc (∑ i ∈ range n, x.coord (i + 2) * y.coord (i + 2)) ^ 2
          ≤ (∑ i ∈ range n, x.coord (i + 2) ^ 2) * ∑ i ∈ range n, y.coord (i + 2) ^ 2 :=
            sum_mul_sq_le_sq_mul_sq _ _ _
        _ ≤ (2 * x.coord 0 * x.coord 1) * (2 * y.coord 0 * y.coord 1) :=
            mul_le_mul hx hy (sum_nonneg fun _ _ => sq_nonneg _) (by positivity)
        _ ≤ (x.coord 0 * y.coord 0 + x.coord 1 * y.coord 1) ^ 2 := by
            linarith [sq_nonneg (x.coord 0 * y.coord 0 - x.coord 1 * y.coord 1)]
    rw [product_two_add]
    linarith [neg_le_of_abs_le (abs_le_of_sq_le_sq hrest hmain)]

/-- The column of two first entries and `n` further ones. -/
noncomputable def tipped (n : ℕ) (a b : ℝ) (v : ℕ → ℝ) : Column ℝ :=
  tabulate (n + 2) fun i => match i with
    | 0 => a
    | 1 => b
    | i + 2 => v i

section Tipped

variable {a b : ℝ} {v : ℕ → ℝ}

theorem coord_tipped_zero : (tipped n a b v).coord 0 = a := by
  rw [tipped, coord_tabulate, if_pos (by omega)]

theorem coord_tipped_one : (tipped n a b v).coord 1 = b := by
  rw [tipped, coord_tabulate, if_pos (by omega)]

theorem coord_tipped_rest {i : ℕ} (hi : i < n) : (tipped n a b v).coord (i + 2) = v i := by
  rw [tipped, coord_tabulate, if_pos (by omega)]

theorem tipped_inRotated (ha : 0 ≤ a) (hb : 0 ≤ b) (h : ∑ i ∈ range n, v i ^ 2 ≤ 2 * a * b) :
    (tipped n a b v).InRotated := by
  have hsize : (tipped n a b v).size = n + 2 := size_tabulate _ _
  rw [inRotated_iff hsize, coord_tipped_zero, coord_tipped_one,
    sum_congr rfl fun i hi => by rw [coord_tipped_rest (mem_range.mp hi)]]
  exact ⟨ha, hb, h⟩

theorem product_tipped (y : Column ℝ) :
    (tipped n a b v).product y 0 (n + 2) =
      a * y.coord 0 + b * y.coord 1 + ∑ i ∈ range n, v i * y.coord (i + 2) := by
  rw [product_two_add, coord_tipped_zero, coord_tipped_one,
    sum_congr rfl fun i hi => by rw [coord_tipped_rest (mem_range.mp hi)]]

end Tipped

/-- A weight is no more than twice the product of two numbers where every two factors
that are large enough for it outweigh it. -/
theorem le_two_mul_of_forall_le {p q w : ℝ} (hp : 0 ≤ p) (hq : 0 ≤ q) (hw : 0 ≤ w)
    (h : ∀ a b : ℝ, 0 ≤ a → 0 ≤ b → w ≤ 2 * a * b → w ≤ a * p + b * q) : w ≤ 2 * p * q := by
  rcases hp.eq_or_lt with rfl | hpos
  · -- A first number of zero gains nothing from a large factor.
    have hlarge : w / (2 * (q + 1)) * (q + 1) = w / 2 := by field_simp
    have hle := h (q + 1) (w / (2 * (q + 1))) (by positivity) (by positivity) (by linarith)
    have hshare : w / (2 * (q + 1)) * q ≤ w / 2 := by
      rw [← hlarge]
      gcongr
      linarith
    linarith
  · have hhalf : w / (2 * p) * p = w / 2 := by field_simp
    have hle := h (w / (2 * p)) p (by positivity) hp (by linarith)
    linarith

/-- What has products not below zero with a whole rotated cone lies in it. -/
theorem inRotated_of_product_nonneg (hsize : y.size = n)
    (h : ∀ x : Column ℝ, x.size = n → x.InRotated → 0 ≤ x.product y 0 n) : y.InRotated := by
  match n with
  | 0 =>
    rw [InRotated, hsize]
    trivial
  | 1 =>
    have hone := h #[1] rfl (zero_le_one' ℝ)
    rw [InRotated, hsize]
    simpa [product, coord] using hone
  | n + 2 =>
    have hform : ∀ (a b : ℝ) (v : ℕ → ℝ), 0 ≤ a → 0 ≤ b → ∑ i ∈ range n, v i ^ 2 ≤ 2 * a * b →
        0 ≤ a * y.coord 0 + b * y.coord 1 + ∑ i ∈ range n, v i * y.coord (i + 2) := by
      intro a b v ha hb hv
      rw [← product_tipped]
      exact h _ (size_tabulate _ _) (tipped_inRotated ha hb hv)
    have h0 : 0 ≤ y.coord 0 := by simpa using hform 1 0 0 zero_le_one le_rfl
    have h1 : 0 ≤ y.coord 1 := by simpa using hform 0 1 0 le_rfl zero_le_one
    have hrest : 0 ≤ ∑ i ∈ range n, y.coord (i + 2) ^ 2 := sum_nonneg fun _ _ => sq_nonneg _
    refine (inRotated_iff hsize).mpr ⟨h0, h1, le_two_mul_of_forall_le h0 h1 hrest ?_⟩
    -- The further entries are put against their own opposites.
    intro a b ha hb hab
    have hnonneg := hform a b (fun i => -y.coord (i + 2)) ha hb (by simpa using hab)
    simp only [neg_mul, sum_neg_distrib, ← sq] at hnonneg
    linarith

end Rotated

end Column

/-! ## Cones from a place on -/

namespace ProductCone

section Blocks

variable {x y : Column ℝ} {orthant : ℕ}

/-- Membership from a place on reads only the entries of the cones. -/
theorem ContainsFrom.congr {ks : List ℕ} {start : ℕ} (hx : ContainsFrom x start ks orthant)
    (h : ∀ i < ks.sum + orthant, x.coord (start + i) = y.coord (start + i)) :
    ContainsFrom y start ks orthant := by
  induction ks generalizing start with
  | nil => exact fun i hi => h i (by simpa using hi) ▸ hx i hi
  | cons k ks ih =>
    rw [List.sum_cons] at h
    have hslice : x.slice start k = y.slice start k := by
      apply Column.ext_coord (by simp)
      intro i hi
      rw [Column.size_slice] at hi
      rw [x.coord_slice start hi, y.coord_slice start hi, h i (by omega)]
    refine ⟨hslice ▸ hx.1, ih hx.2 fun i hi => ?_⟩
    rw [Nat.add_assoc]
    exact h (k + i) (by omega)

theorem containsFrom_of_coord_eq_zero {ks : List ℕ} {start : ℕ}
    (h : ∀ i, x.coord (start + i) = 0) : ContainsFrom x start ks orthant := by
  induction ks generalizing start with
  | nil => exact fun i _ => (h i).ge
  | cons k ks ih =>
    refine ⟨Column.inRotated_of_coord_eq_zero fun i hi => ?_, ih fun i => ?_⟩
    · rw [Column.size_slice] at hi
      rw [x.coord_slice start hi, h i]
    · rw [Nat.add_assoc, h (k + i)]

/-- Columns that lie in some cones from a place on have a product over them that is not
below zero. -/
theorem ContainsFrom.product_nonneg {ks : List ℕ} {start : ℕ}
    (hx : ContainsFrom x start ks orthant) (hy : ContainsFrom y start ks orthant) :
    0 ≤ x.product y start (ks.sum + orthant) := by
  induction ks generalizing start with
  | nil =>
    rw [List.sum_nil, Nat.zero_add]
    exact sum_nonneg fun i hi => mul_nonneg (hx i (mem_range.mp hi)) (hy i (mem_range.mp hi))
  | cons k ks ih =>
    have hfirst := hx.1.product_nonneg hy.1 (x.size_slice start k) (y.size_slice start k)
    rw [List.sum_cons, Nat.add_assoc, Column.product_add, ← Column.product_slice x y start k]
    exact add_nonneg hfirst (ih hx.2 hy.2)

section First

variable {ks : List ℕ} {start k : ℕ}
  (h : ∀ x, ContainsFrom x start (k :: ks) orthant →
    0 ≤ x.product y start k + x.product y (start + k) (ks.sum + orthant))

include h

/-- A column of the first cone is tried with zeros around it. -/
theorem slice_inRotated_of_product_nonneg : (y.slice start k).InRotated := by
  refine Column.inRotated_of_product_nonneg (y.size_slice start k) fun v hv hrotated => ?_
  have hslice := Column.slice_zeros_append hv start
  have hrest : ∀ i, (Column.zeros start ++ v).coord (start + k + i) = 0 := by
    intro i
    rw [Nat.add_assoc, Column.coord_zeros_append, Column.coord_of_size_le (by omega)]
  have hnonneg := h _ ⟨hslice.symm ▸ hrotated, containsFrom_of_coord_eq_zero hrest⟩
  rw [Column.product_of_coord_eq_zero fun i _ => hrest i, add_zero, ← Column.product_slice,
    hslice] at hnonneg
  exact hnonneg

/-- A column of the other cones is tried with zeros in front of it. -/
theorem product_nonneg_of_containsFrom {x : Column ℝ} (hx : ContainsFrom x (start + k) ks orthant) :
    0 ≤ x.product y (start + k) (ks.sum + orthant) := by
  let rest : Column ℝ := x.slice (start + k) (ks.sum + orthant)
  have hrest : ∀ i < ks.sum + orthant,
      (Column.zeros (start + k) ++ rest).coord (start + k + i) = x.coord (start + k + i) := by
    intro i hi
    rw [Column.coord_zeros_append, Column.coord_slice _ _ hi]
  have hzero : ∀ i < k, (Column.zeros (start + k) ++ rest).coord (start + i) = 0 :=
    fun i hi => Column.coord_zeros_append_of_lt _ (by omega)
  have hfirst : ((Column.zeros (start + k) ++ rest).slice start k).InRotated := by
    refine Column.inRotated_of_coord_eq_zero fun i hi => ?_
    rw [Column.size_slice] at hi
    rw [Column.coord_slice _ _ hi, hzero i hi]
  have hnonneg := h _ ⟨hfirst, hx.congr fun i hi => (hrest i hi).symm⟩
  rwa [Column.product_of_coord_eq_zero hzero, zero_add,
    Column.product_congr hrest fun _ _ => rfl] at hnonneg

end First

/-- What has products not below zero with all that lies in some cones from a place on
lies in them. -/
theorem containsFrom_of_product_nonneg {ks : List ℕ} {start : ℕ}
    (h : ∀ x, ContainsFrom x start ks orthant → 0 ≤ x.product y start (ks.sum + orthant)) :
    ContainsFrom y start ks orthant := by
  induction ks generalizing start with
  | nil =>
    rw [List.sum_nil, Nat.zero_add] at h
    exact Column.coord_nonneg_of_product_nonneg h
  | cons k ks ih =>
    simp only [List.sum_cons, Nat.add_assoc, Column.product_add _ _ start k] at h
    exact ⟨slice_inRotated_of_product_nonneg h, ih fun x => product_nonneg_of_containsFrom h⟩

end Blocks

/-! ## Dual cones -/

/-- The column lies in the dual of the cone: its product with every column of the cone is
not below zero. -/
def DualContains (k : ProductCone) (y : Column ℝ) : Prop :=
  y.size = k.dim ∧ ∀ x, k.Contains x → 0 ≤ x.product y 0 k.dim

variable {k : ProductCone} {x y z : Column ℝ}

/-- A product cone is its own dual. -/
theorem dualContains_iff : k.DualContains y ↔ k.Contains y := by
  constructor
  · rintro ⟨hsize, hproduct⟩
    refine ⟨hsize, containsFrom_of_product_nonneg fun x hx => ?_⟩
    have hcut : ∀ i < k.dim, (x.slice 0 k.dim).coord (0 + i) = x.coord (0 + i) := by
      intro i hi
      rw [Nat.zero_add, x.coord_slice 0 hi, Nat.zero_add]
    have hmem : k.Contains (x.slice 0 k.dim) :=
      ⟨x.size_slice 0 k.dim, hx.congr fun i hi => (hcut i hi).symm⟩
    have hnonneg := hproduct _ hmem
    rwa [Column.product_congr hcut fun _ _ => rfl] at hnonneg
  · rintro ⟨hsize, hy⟩
    exact ⟨hsize, fun x hx => hx.2.product_nonneg hy⟩

theorem product_combination {a b : ℝ} (w : Column ℝ) {n : ℕ}
    (hz : ∀ i < n, z.coord i = a * x.coord i + b * y.coord i) :
    w.product z 0 n = a * w.product x 0 n + b * w.product y 0 n := by
  simp only [Column.product, mul_sum, ← sum_add_distrib, Nat.zero_add]
  apply sum_congr rfl
  intro i hi
  rw [hz i (mem_range.mp hi)]
  ring

/-- The cone holds every combination of its columns with factors not below zero. -/
theorem Contains.combine (hx : k.Contains x) (hy : k.Contains y) {a b : ℝ} (ha : 0 ≤ a)
    (hb : 0 ≤ b) (hsize : z.size = k.dim)
    (hz : ∀ i < k.dim, z.coord i = a * x.coord i + b * y.coord i) : k.Contains z := by
  refine dualContains_iff.mp ⟨hsize, fun w hw => ?_⟩
  have hx' := (dualContains_iff.mpr hx).2 w hw
  have hy' := (dualContains_iff.mpr hy).2 w hw
  rw [product_combination w hz]
  positivity

/-- The cone holds every direction along which it is never left. -/
theorem contains_of_forall_add (hsize : y.size = k.dim)
    (h : ∀ a : ℝ, 0 ≤ a → ∃ z, k.Contains z ∧ ∀ i < k.dim, z.coord i = x.coord i + a * y.coord i) :
    k.Contains y := by
  refine dualContains_iff.mp ⟨hsize, fun w hw => ?_⟩
  have hline : ∀ a : ℝ, 0 ≤ a → 0 ≤ w.product x 0 k.dim + a * w.product y 0 k.dim := by
    intro a ha
    obtain ⟨z, hz, hcoord⟩ := h a ha
    have hsum : ∀ i < k.dim, z.coord i = 1 * x.coord i + a * y.coord i :=
      fun i hi => (hcoord i hi).trans (by rw [one_mul])
    have hnonneg := (dualContains_iff.mpr hz).2 w hw
    rwa [product_combination w hsum, one_mul] at hnonneg
  -- A product below zero along the direction would win far enough out.
  by_contra hneg
  rw [not_le] at hneg
  have hfar := hline ((w.product x 0 k.dim + 1) / -w.product y 0 k.dim)
    (div_nonneg (by linarith [hline 0 le_rfl]) (by linarith))
  rw [div_neg, neg_mul, div_mul_cancel₀ _ hneg.ne] at hfar
  linarith

end ProductCone

end Rebalancing
