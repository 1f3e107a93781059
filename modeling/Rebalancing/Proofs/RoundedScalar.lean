-- SUMMARY: Scalars that stand for real numbers and round every result to a neighbour: the laws, and ranges that no operation leaves.
import Mathlib
import Rebalancing.Column
import Rebalancing.Proofs.ExactScalar

/-!
# Rounded scalars

A machine float that is finite stands for a real number, and an operation rounds the
exact result. Of rounding only one thing is needed to bound what a program computes: it
does not pass a number that is a scalar itself. So a result lies between any two finite
scalars between which the exact result lies, and a result that leaves what is finite has
no such bounds.
-/

namespace Rebalancing

/-- Scalars of which each finite one stands for a real number. -/
class RealValued (F : Type) where
  value : F → ℝ

export RealValued (value)

section Rounds

variable {F : Type} [Scalar F] [RealValued F]

/-- A scalar to which a number may be rounded: no finite scalar lies strictly between the
two, and what lies between two finite scalars is not lost. -/
def Rounds (r : ℝ) (x : F) : Prop :=
  ∀ a b : F, Scalar.isFinite a = true → Scalar.isFinite b = true → value a ≤ r → r ≤ value b →
    Scalar.isFinite x = true ∧ value a ≤ value x ∧ value x ≤ value b

end Rounds

/-- The scalars round the results of their operations. -/
class RoundedScalar (F : Type) [Scalar F] extends RealValued F where
  isFinite_zero : Scalar.isFinite (0 : F) = true
  value_zero : value (0 : F) = 0
  isFinite_one : Scalar.isFinite (1 : F) = true
  value_one : value (1 : F) = 1
  isFinite_neg (x : F) : Scalar.isFinite (-x) = Scalar.isFinite x
  value_neg (x : F) : value (-x) = -value x
  lt_zero_iff {x : F} : Scalar.isFinite x = true → (x < 0 ↔ value x < 0)
  zero_lt_iff {x : F} : Scalar.isFinite x = true → (0 < x ↔ 0 < value x)
  le_zero_iff {x : F} : Scalar.isFinite x = true → (x ≤ 0 ↔ value x ≤ 0)
  rounds_add {x y : F} :
    Scalar.isFinite x = true → Scalar.isFinite y = true → Rounds (value x + value y) (x + y)
  rounds_sub {x y : F} :
    Scalar.isFinite x = true → Scalar.isFinite y = true → Rounds (value x - value y) (x - y)
  rounds_mul {x y : F} :
    Scalar.isFinite x = true → Scalar.isFinite y = true → Rounds (value x * value y) (x * y)
  rounds_div {x y : F} : Scalar.isFinite x = true → Scalar.isFinite y = true → value y ≠ 0 →
    Rounds (value x / value y) (x / y)
  rounds_sqrt {x : F} : Scalar.isFinite x = true → 0 ≤ value x → Rounds √(value x) (Scalar.sqrt x)
  /-- Counts that are a short number with zeros behind it are exact. -/
  ofCount_exact {c j : ℕ} : c ≤ 2 ^ 53 → j ≤ 970 →
    Scalar.isFinite (Scalar.ofCount (c * 2 ^ j) : F) = true ∧
      value (Scalar.ofCount (c * 2 ^ j) : F) = c * 2 ^ j
  /-- What is not finite does not become finite by adding or multiplying. -/
  isFinite_of_add {x y : F} :
    Scalar.isFinite (x + y) = true → Scalar.isFinite x = true ∧ Scalar.isFinite y = true
  isFinite_of_sub {x y : F} :
    Scalar.isFinite (x - y) = true → Scalar.isFinite x = true ∧ Scalar.isFinite y = true
  isFinite_of_mul {x y : F} :
    Scalar.isFinite (x * y) = true → Scalar.isFinite x = true ∧ Scalar.isFinite y = true

namespace RoundedScalar

variable {F : Type} [Scalar F] [RoundedScalar F]

/-! ## Bounds -/

variable (F) in
/-- A finite scalar stands for the number. -/
def IsBound (b : ℝ) : Prop := ∃ x : F, Scalar.isFinite x = true ∧ value x = b

/-- The scalar is finite and stands for a number between two others. -/
structure Between (lo hi : ℝ) (x : F) : Prop where
  isFinite : Scalar.isFinite x = true
  ge : lo ≤ value x
  le : value x ≤ hi

/-- The scalar is finite and stands for a number that is not below another. -/
structure AtLeast (lo : ℝ) (x : F) : Prop where
  isFinite : Scalar.isFinite x = true
  ge : lo ≤ value x

/-- The scalar is finite and stands for a number of at most a size. -/
abbrev AtMost (b : ℝ) : F → Prop := Between (-b) b

theorem isBound_value {x : F} (hx : Scalar.isFinite x = true) : IsBound F (value x) := ⟨x, hx, rfl⟩

theorem IsBound.neg {b : ℝ} (h : IsBound F b) : IsBound F (-b) := by
  obtain ⟨x, hx, rfl⟩ := h
  exact ⟨-x, (isFinite_neg x).trans hx, value_neg x⟩

theorem isBound_count {c j : ℕ} (hc : c ≤ 2 ^ 53) (hj : j ≤ 970) : IsBound F (c * 2 ^ j) :=
  ⟨Scalar.ofCount (c * 2 ^ j), ofCount_exact hc hj⟩

/-- A number of powers of two. -/
theorem isBound_mul_two_pow {i s a : ℕ} (hi : i ≤ 2 ^ s) (hs : s ≤ 53) (h : s + a ≤ 1023) :
    IsBound F (i * 2 ^ a) := by
  rcases le_or_gt a 970 with ha | ha
  · exact isBound_count (hi.trans (Nat.pow_le_pow_right two_pos hs)) ha
  · -- What the exponent has too much goes into the number.
    have hcount : i * 2 ^ (a - 970) ≤ 2 ^ 53 :=
      calc i * 2 ^ (a - 970) ≤ 2 ^ s * 2 ^ (a - 970) := Nat.mul_le_mul_right _ hi
        _ = 2 ^ (s + (a - 970)) := (pow_add _ _ _).symm
        _ ≤ 2 ^ 53 := Nat.pow_le_pow_right two_pos (by omega)
    have hsame : ((i * 2 ^ (a - 970) : ℕ) : ℝ) * 2 ^ 970 = i * 2 ^ a := by
      rw [Nat.cast_mul, Nat.cast_pow, Nat.cast_ofNat, mul_assoc, ← pow_add,
        Nat.sub_add_cancel ha.le]
    exact hsame ▸ isBound_count hcount le_rfl

theorem cast_mul_two_pow_le {n s : ℕ} (a : ℕ) (hn : n ≤ 2 ^ s) : (n : ℝ) * 2 ^ a ≤ 2 ^ (s + a) := by
  rw [pow_add]
  exact mul_le_mul_of_nonneg_right (by exact_mod_cast hn) (by positivity)

theorem isBound_two_pow {j : ℕ} (hj : j ≤ 1023) : IsBound F (2 ^ j) := by
  simpa using isBound_mul_two_pow (F := F) (Nat.one_le_two_pow (n := 0)) (Nat.zero_le 53)
    (show 0 + j ≤ 1023 by omega)

theorem isBound_zero : IsBound F 0 := ⟨0, isFinite_zero, value_zero⟩

/-! ## Single operations -/

section Rounds

variable {r lo hi : ℝ} {x : F}

theorem between_of_rounds (h : Rounds r x) (hlo : IsBound F lo) (hhi : IsBound F hi)
    (hge : lo ≤ r) (hle : r ≤ hi) : Between lo hi x := by
  obtain ⟨a, ha, rfl⟩ := hlo
  obtain ⟨b, hb, rfl⟩ := hhi
  obtain ⟨hx, hax, hxb⟩ := h a b ha hb hge hle
  exact ⟨hx, hax, hxb⟩

theorem atMost_of_rounds (h : Rounds r x) (hhi : IsBound F hi) (hr : |r| ≤ hi) : AtMost hi x :=
  between_of_rounds h hhi.neg hhi (abs_le.mp hr).1 (abs_le.mp hr).2

/-- A difference does not overflow where nothing is below zero. -/
theorem isFinite_sub {x y : F} (hx : AtLeast 0 x) (hy : AtLeast 0 y) :
    Scalar.isFinite (x - y) = true := by
  have hle : value x - value y ≤ value x := sub_le_self _ hy.ge
  have hge : -value y ≤ value x - value y := neg_le_sub_iff_le_add.mpr (by simpa using hx.ge)
  exact (between_of_rounds (rounds_sub hx.isFinite hy.isFinite) (isBound_value hy.isFinite).neg
    (isBound_value hx.isFinite) hge hle).isFinite

end Rounds

namespace Between

variable {lo hi lo' hi' a b : ℝ} {x y : F}

theorem abs_value_le (h : AtMost b x) : |value x| ≤ b := abs_le.mpr ⟨h.ge, h.le⟩

theorem mono (h : Between lo hi x) (hlo : lo' ≤ lo) (hhi : hi ≤ hi') : Between lo' hi' x :=
  ⟨h.isFinite, hlo.trans h.ge, h.le.trans hhi⟩

theorem neg (h : Between lo hi x) : Between (-hi) (-lo) (-x) :=
  ⟨(isFinite_neg x).trans h.isFinite, by rw [value_neg]; exact neg_le_neg h.le,
    by rw [value_neg]; exact neg_le_neg h.ge⟩

theorem add (hx : Between lo hi x) (hy : Between lo' hi' y) (hlo : IsBound F (lo + lo'))
    (hhi : IsBound F (hi + hi')) : Between (lo + lo') (hi + hi') (x + y) :=
  between_of_rounds (rounds_add hx.isFinite hy.isFinite) hlo hhi (add_le_add hx.ge hy.ge)
    (add_le_add hx.le hy.le)

theorem add_atMost (hx : AtMost a x) (hy : AtMost b y) (hab : IsBound F (a + b)) :
    AtMost (a + b) (x + y) := by
  have hsum := hx.add hy (neg_add a b ▸ hab.neg) hab
  rwa [← neg_add] at hsum

theorem mul (hx : AtMost a x) (hy : AtMost b y) (hab : IsBound F (a * b)) :
    AtMost (a * b) (x * y) := by
  refine atMost_of_rounds (rounds_mul hx.isFinite hy.isFinite) hab ?_
  rw [abs_mul]
  exact mul_le_mul hx.abs_value_le hy.abs_value_le (abs_nonneg _)
    ((abs_nonneg _).trans hx.abs_value_le)

theorem sqrt (hx : Between 0 (b ^ 2) x) (hb : IsBound F b) (hnonneg : 0 ≤ b) :
    Between 0 b (Scalar.sqrt x) :=
  between_of_rounds (rounds_sqrt hx.isFinite hx.ge) isBound_zero hb (Real.sqrt_nonneg _)
    (Real.sqrt_le_iff.mpr ⟨hnonneg, hx.le⟩)

/-- Factors below powers of two have a product below the power of the added exponents. -/
theorem mul_two_pow {i j : ℕ} (hx : AtMost (2 ^ i) x) (hy : AtMost (2 ^ j) y)
    (h : i + j ≤ 1023) : AtMost (2 ^ (i + j)) (x * y) := by
  have hbound := isBound_two_pow (F := F) h
  rw [pow_add] at hbound ⊢
  exact hx.mul hy hbound

/-- A mean of numbers in a range stays there. -/
theorem div_count {n : ℕ} (hx : Between (n * lo) (n * hi) x) (hn : 0 < n) (hsize : n ≤ 2 ^ 53)
    (hlo : IsBound F lo) (hhi : IsBound F hi) : Between lo hi (x / Scalar.ofCount n) := by
  obtain ⟨hcount, hvalue⟩ := ofCount_exact (F := F) hsize (Nat.zero_le 970)
  rw [pow_zero, mul_one] at hcount hvalue
  rw [pow_zero, mul_one] at hvalue
  have hpos : (0 : ℝ) < n := Nat.cast_pos.mpr hn
  have hne : value (Scalar.ofCount n : F) ≠ 0 := hvalue ▸ hpos.ne'
  refine between_of_rounds (rounds_div hx.isFinite hcount hne) hlo hhi ?_ ?_
  · rw [hvalue, le_div_iff₀ hpos, mul_comm]
    exact hx.ge
  · rw [hvalue, div_le_iff₀ hpos, mul_comm]
    exact hx.le

end Between

/-! ## Exact results -/

/-- The scalar is finite and stands for the number. -/
abbrev Exactly (v : ℝ) : F → Prop := Between v v

section Exactly

variable {v w : ℝ} {x y : F}

theorem exactly_value (hx : Scalar.isFinite x = true) : Exactly (value x) x := ⟨hx, le_rfl, le_rfl⟩

theorem exactly_zero : Exactly 0 (0 : F) := ⟨isFinite_zero, value_zero.ge, value_zero.le⟩

theorem exactly_one : Exactly 1 (1 : F) := ⟨isFinite_one, value_one.ge, value_one.le⟩

theorem exactly_two : Exactly 2 (Scalar.two : F) := by
  have hbound : IsBound F (1 + 1) := by
    rw [one_add_one_eq_two, ← pow_one (2 : ℝ)]
    exact isBound_two_pow (by omega)
  have hsum := exactly_one.add exactly_one hbound hbound
  rwa [one_add_one_eq_two] at hsum

namespace Between

theorem value_eq (h : Exactly v x) : value x = v := h.le.antisymm h.ge

theorem isBound (h : Exactly v x) : IsBound F v := ⟨x, h.isFinite, h.value_eq⟩

/-- A product that is a scalar itself is exact. -/
theorem mul_exactly (hx : Exactly v x) (hy : Exactly w y) (h : IsBound F (v * w)) :
    Exactly (v * w) (x * y) := by
  have hround := rounds_mul hx.isFinite hy.isFinite
  rw [hx.value_eq, hy.value_eq] at hround
  exact between_of_rounds hround h h le_rfl le_rfl

/-- A sum with a zero is exact. -/
theorem add_exactly (hx : Exactly v x) (hy : Exactly w y) (h : v = 0 ∨ w = 0) :
    Exactly (v + w) (x + y) := by
  have hbound : IsBound F (v + w) := by
    rcases h with rfl | rfl
    · rw [zero_add]
      exact hy.isBound
    · rw [add_zero]
      exact hx.isBound
  exact hx.add hy hbound hbound

end Between

theorem atMost_half : AtMost 1 (Scalar.half : F) := by
  have htwo := exactly_two (F := F)
  have hround := rounds_div (isFinite_one (F := F)) htwo.isFinite (htwo.value_eq ▸ two_ne_zero)
  rw [value_one, htwo.value_eq] at hround
  exact atMost_of_rounds hround (Between.isBound exactly_one) (by norm_num)

end Exactly

/-! ## Sums -/

section Sums

variable {n : ℕ} {f : ℕ → F} {lo hi : ℝ}

/-- Partial sums of numbers in a range stay in the range that grows by one step each. -/
theorem between_sumTo (h : ∀ i < n, Between lo hi (f i)) (hlo : ∀ i ≤ n, IsBound F (i * lo))
    (hhi : ∀ i ≤ n, IsBound F (i * hi)) : Between (n * lo) (n * hi) (sumTo n f) := by
  induction n with
  | zero => simpa [sumTo] using exactly_zero (F := F)
  | succ n ih =>
    have hbefore := ih (fun i hi => h i (by omega)) (fun i hi => hlo i (by omega))
      fun i hi => hhi i (by omega)
    have hlo' := hlo (n + 1) le_rfl
    have hhi' := hhi (n + 1) le_rfl
    rw [Nat.cast_succ, add_one_mul] at hlo' hhi'
    rw [Nat.cast_succ, add_one_mul, add_one_mul, sumTo, sumFrom_succ]
    exact hbefore.add (h n n.lt_succ_self) hlo' hhi'

/-- A number of summands below a power of two. -/
theorem atMost_sumTo {s a : ℕ} (h : ∀ i < n, AtMost (2 ^ a) (f i)) (hn : n ≤ 2 ^ s) (hs : s ≤ 53)
    (ha : s + a ≤ 1023) : AtMost (2 ^ (s + a)) (sumTo n f) := by
  have hbound : ∀ i ≤ n, IsBound F (i * 2 ^ a) := fun i hi =>
    isBound_mul_two_pow (hi.trans hn) hs ha
  have hsum := between_sumTo h (fun i hi => by rw [mul_neg]; exact (hbound i hi).neg) hbound
  rw [mul_neg] at hsum
  exact hsum.mono (neg_le_neg (cast_mul_two_pow_le a hn)) (cast_mul_two_pow_le a hn)

/-- A sum of which one summand at most is not zero is exact. -/
theorem exactly_sumTo {start k : ℕ} {v : ℝ}
    (h : ∀ i < n, Exactly (if start + i = k then v else 0) (f i)) :
    Exactly (if start ≤ k ∧ k < start + n then v else 0) (sumTo n f) := by
  induction n with
  | zero =>
    rw [if_neg (by omega)]
    exact exactly_zero
  | succ n ih =>
    have hsum := (ih fun i hi => h i (by omega)).add_exactly (h n n.lt_succ_self) ?_
    · rw [sumTo, sumFrom_succ]
      by_cases hk : start + n = k
      · rw [if_neg (by omega), if_pos hk, zero_add] at hsum
        rwa [if_pos (by omega)]
      · rw [if_neg hk, add_zero] at hsum
        have hsame : (start ≤ k ∧ k < start + (n + 1)) ↔ (start ≤ k ∧ k < start + n) := by omega
        rwa [if_congr hsame rfl rfl]
    · by_cases hk : start + n = k
      · exact .inl (if_neg (by omega))
      · exact .inr (if_neg hk)

/-- Every summand of a sum that is finite is finite. -/
theorem isFinite_of_sumTo (h : Scalar.isFinite (sumTo n f) = true) :
    ∀ i < n, Scalar.isFinite (f i) = true := by
  induction n with
  | zero =>
    intro i hi
    omega
  | succ n ih =>
    rw [sumTo, sumFrom_succ] at h
    obtain ⟨hbefore, hlast⟩ := isFinite_of_add h
    intro i hi
    rcases Nat.lt_succ_iff_lt_or_eq.mp hi with hlt | rfl
    · exact ih hbefore i hlt
    · exact hlast

end Sums

end RoundedScalar

end Rebalancing
